/-
Callbacks that fail.

A loop over a list stops at the first element on which its callback fails. `Passes` says that a callback goes through a
list from one state to another without failing, and `noted` is the callback that also lists what it is called on; so
`StopsAtFailure` can say of a loop on what it calls its callback, how it ends and which state it leaves. A loop over a
list is the model of it (`stopsAtFailure_forM`). Collection from a quadtree and the visit of an event to an index by area
are such loops over what a callback that never fails is shown, whatever the callback does (`stops_at_failure`).
-/
import EventMatching.Filter.Handle
import EventMatching.Proofs.Index.Visit

namespace EventMatching

variable {α ε σ : Type}

/-! ## Loops over lists -/

/-- called on the elements in turn, the callback takes the first state to the second and never fails -/
inductive Passes (f : α → EStateM ε σ Unit) : σ → List α → σ → Prop where
  | nil (s : σ) : Passes f s [] s
  | cons {x : α} {xs : List α} {s s' s'' : σ} (first : f x s = .ok () s') (rest : Passes f s' xs s'') :
      Passes f s (x :: xs) s''

/-- the callback, which also takes note of what it is called on -/
def noted (f : α → EStateM ε σ Unit) (x : α) : EStateM ε (σ × List α) Unit := fun (s, calls) =>
  match f x s with
  | .ok _ s' => .ok () (s', calls ++ [x])
  | .error e s' => .error e (s', calls ++ [x])

/-- an outcome without the notes -/
def unnoted : EStateM.Result ε (σ × List α) Unit → EStateM.Result ε σ Unit
  | .ok _ (s, _) => .ok () s
  | .error e (s, _) => .error e s

/-- the state that an outcome leaves -/
def stateLeft : EStateM.Result ε σ Unit → σ
  | .ok _ s => s
  | .error _ s => s

/-- The loop calls its callback on the elements of the list in turn, up to and including the first on which it fails.
`notedLoop` is the loop with the noted callback in place of `f`. -/
structure StopsAtFailure (f : α → EStateM ε σ Unit) (xs : List α) (loop : EStateM ε σ Unit)
    (notedLoop : EStateM ε (σ × List α) Unit) : Prop where
  /-- it ends well just if no call fails, and the calls are then on all elements -/
  completes : ∀ s s' calls, notedLoop (s, []) = .ok () (s', calls) ↔ calls = xs ∧ Passes f s xs s'
  /-- it fails just if a call fails, with the error and in the state of that call, which is the last one -/
  fails : ∀ s e s' calls, notedLoop (s, []) = .error e (s', calls) ↔ ∃ before x after s₁,
    xs = before ++ x :: after ∧ calls = before ++ [x] ∧ Passes f s before s₁ ∧ f x s₁ = .error e s'
  /-- taking note makes no difference to how it ends -/
  ending : ∀ s, loop s = unnoted (notedLoop (s, []))

theorem passes_nil {f : α → EStateM ε σ Unit} {s s' : σ} : Passes f s [] s' ↔ s' = s := by
  constructor
  · rintro ⟨⟩
    rfl
  · rintro rfl
    exact .nil _

theorem passes_cons {f : α → EStateM ε σ Unit} {x : α} {xs : List α} {s s'' : σ} :
    Passes f s (x :: xs) s'' ↔ ∃ s', f x s = .ok () s' ∧ Passes f s' xs s'' := by
  constructor
  · intro h
    cases h with
    | cons first rest => exact ⟨_, first, rest⟩
  · rintro ⟨s', first, rest⟩
    exact .cons first rest

/-- a loop goes on after a call that did not fail -/
theorem forM_cons_ok {f : α → EStateM ε σ Unit} {x : α} {s s' : σ} (h : f x s = .ok () s') (xs : List α) :
    (x :: xs).forM f s = xs.forM f s' := by
  show EStateM.bind (f x) (fun _ => xs.forM f) s = _
  rw [EStateM.bind, h]

/-- a loop ends with a call that failed -/
theorem forM_cons_error {f : α → EStateM ε σ Unit} {x : α} {s s' : σ} {e : ε} (h : f x s = .error e s') (xs : List α) :
    (x :: xs).forM f s = .error e s' := by
  show EStateM.bind (f x) (fun _ => xs.forM f) s = _
  rw [EStateM.bind, h]

theorem noted_ok {f : α → EStateM ε σ Unit} {x : α} {s s' : σ} (h : f x s = .ok () s') (calls : List α) :
    noted f x (s, calls) = .ok () (s', calls ++ [x]) := by
  simp only [noted, h]

theorem noted_error {f : α → EStateM ε σ Unit} {x : α} {s s' : σ} {e : ε} (h : f x s = .error e s') (calls : List α) :
    noted f x (s, calls) = .error e (s', calls ++ [x]) := by
  simp only [noted, h]

section Loop

variable (f : α → EStateM ε σ Unit)

theorem forM_noted_ok {xs : List α} {s s' : σ} {calls calls' : List α} :
    xs.forM (noted f) (s, calls) = .ok () (s', calls') ↔ calls' = calls ++ xs ∧ Passes f s xs s' := by
  induction xs generalizing s calls with
  | nil =>
    have hnil : ([] : List α).forM (noted f) (s, calls) = .ok () (s, calls) := rfl
    rw [hnil, passes_nil, List.append_nil, EStateM.Result.ok.injEq, Prod.mk.injEq]
    constructor
    · rintro ⟨-, rfl, rfl⟩
      exact ⟨rfl, rfl⟩
    · rintro ⟨rfl, rfl⟩
      exact ⟨rfl, rfl, rfl⟩
  | cons x xs ih =>
    rw [passes_cons]
    cases hx : f x s with
    | ok u s₁ =>
      rw [forM_cons_ok (noted_ok hx calls), ih, List.append_assoc, List.singleton_append]
      simp only [EStateM.Result.ok.injEq, true_and, exists_eq_left']
    | error e s₁ =>
      rw [forM_cons_error (noted_error hx calls)]
      simp

theorem forM_noted_error {xs : List α} {s s' : σ} {e : ε} {calls calls' : List α} :
    xs.forM (noted f) (s, calls) = .error e (s', calls') ↔ ∃ before x after s₁,
      xs = before ++ x :: after ∧ calls' = calls ++ (before ++ [x]) ∧ Passes f s before s₁ ∧ f x s₁ = .error e s' := by
  induction xs generalizing s calls with
  | nil =>
    have hnil : ([] : List α).forM (noted f) (s, calls) = .ok () (s, calls) := rfl
    rw [hnil]
    simp
  | cons y ys ih =>
    cases hy : f y s with
    | ok u s₁ =>
      rw [forM_cons_ok (noted_ok hy calls), ih]
      constructor
      · rintro ⟨before, x, after, s₂, rfl, rfl, hpasses, hfails⟩
        exact ⟨y :: before, x, after, s₂, rfl, by simp, .cons hy hpasses, hfails⟩
      · rintro ⟨before, x, after, s₂, hsplit, rfl, hpasses, hfails⟩
        cases before with
        | nil =>
          -- the failing call would be the one that did not fail
          obtain ⟨rfl, -⟩ := List.cons.inj hsplit
          obtain rfl := passes_nil.1 hpasses
          rw [hy] at hfails
          cases hfails
        | cons z before =>
          obtain ⟨rfl, rfl⟩ := List.cons.inj hsplit
          obtain ⟨s₃, hfirst, hrest⟩ := passes_cons.1 hpasses
          rw [hy] at hfirst
          obtain ⟨-, rfl⟩ := EStateM.Result.ok.inj hfirst
          exact ⟨before, x, after, s₂, rfl, by simp, hrest, hfails⟩
    | error e₁ s₁ =>
      rw [forM_cons_error (noted_error hy calls), EStateM.Result.error.injEq, Prod.mk.injEq]
      constructor
      · rintro ⟨rfl, rfl, rfl⟩
        exact ⟨[], y, ys, s, rfl, rfl, .nil s, hy⟩
      · rintro ⟨before, x, after, s₂, hsplit, rfl, hpasses, hfails⟩
        cases before with
        | nil =>
          obtain ⟨rfl, rfl⟩ := List.cons.inj hsplit
          obtain rfl := passes_nil.1 hpasses
          rw [hy] at hfails
          obtain ⟨rfl, rfl⟩ := EStateM.Result.error.inj hfails
          exact ⟨rfl, rfl, rfl⟩
        | cons z before =>
          obtain ⟨rfl, rfl⟩ := List.cons.inj hsplit
          obtain ⟨s₃, hfirst, -⟩ := passes_cons.1 hpasses
          rw [hy] at hfirst
          cases hfirst

theorem unnoted_forM (xs : List α) (s : σ) (calls : List α) :
    unnoted (xs.forM (noted f) (s, calls)) = xs.forM f s := by
  induction xs generalizing s calls with
  | nil => rfl
  | cons x xs ih =>
    cases hx : f x s with
    | ok u s' => rw [forM_cons_ok (noted_ok hx calls), forM_cons_ok hx, ih]
    | error e s' => rw [forM_cons_error (noted_error hx calls), forM_cons_error hx, unnoted]

/-- **A loop over a list stops at the first failure.** -/
theorem stopsAtFailure_forM (xs : List α) : StopsAtFailure f xs (xs.forM f) (xs.forM (noted f)) where
  completes _ _ _ := forM_noted_ok f
  fails _ _ _ _ := forM_noted_error f
  ending s := (unnoted_forM f xs s []).symm

end Loop

/-- a loop of callbacks that only append to a list only appends to it, also if it fails -/
theorem prefix_forM {β : Type} {f : α → EStateM ε (List β) Unit} (hf : ∀ x m, m <+: stateLeft (f x m)) (xs : List α)
    (m : List β) : m <+: stateLeft (xs.forM f m) := by
  induction xs generalizing m with
  | nil => exact List.prefix_rfl
  | cons x xs ih =>
    have hfirst := hf x m
    cases hx : f x m with
    | ok u m' =>
      rw [hx] at hfirst
      rw [forM_cons_ok hx]
      exact hfirst.trans (ih m')
    | error e m' =>
      rw [hx] at hfirst
      rwa [forM_cons_error hx]

/-! ## Visits -/

namespace Index

variable {E : Type} {ix : Index E}

/-- the entries of an index whose constants the event satisfies, in the order in which the index holds them -/
def satisfied (ix : Index E) (event : Event) : List (Constant × E) :=
  ix.contents.entries.filter fun e => ix.lookup.satisfies event e.1

/-- no constant stands for two entries -/
theorem Sound.satisfied_distinct (h : ix.Sound) (event : Event) :
    (ix.satisfied event).Pairwise fun e e' => (e.1 == e'.1) = false :=
  List.Pairwise.filter _ h.distinct

theorem visitSatisfied_eq (ix : Index E) (event : Event) (run : E → EStateM Error σ Unit) :
    ix.visitSatisfied event run = ((ix.satisfied event).map (·.2)).forM run := by
  rw [visitSatisfied, satisfied, List.forM_eq_forM, List.forM_eq_forM, List.forM_map]

/-- a visit that can read the event stops at the first evaluator that fails -/
theorem Sound.stopsAtFailure (h : ix.Sound) {event : Event} (hread : ix.lookup.fault? event = none)
    (run : E → EStateM Error σ Unit) :
    StopsAtFailure run ((ix.satisfied event).map (·.2)) (ix.visit event run) (ix.visit event (noted run)) := by
  simp only [visit_eq h, hread, visitSatisfied_eq]
  exact stopsAtFailure_forM run _

/-- a visit of evaluators that only append to a list only appends to it -/
theorem Sound.prefix_visit {β : Type} (h : ix.Sound) (event : Event) {run : E → EStateM Error (List β) Unit}
    (hrun : ∀ ev m, m <+: stateLeft (run ev m)) (m : List β) : m <+: stateLeft (ix.visit event run m) := by
  rw [visit_eq h]
  split
  · exact List.prefix_rfl
  · rw [visitSatisfied_eq]
    exact prefix_forM hrun _ m

/-- an index as it is built over an area, after any calls -/
theorem ofArea_run {a : Area} {ix : Index E} (h : ofArea a = .ok ix) (calls : List (Change E)) :
    (ix.run calls).Sound ∧ (ix.run calls).lookup = .area a := by
  have hfresh := Builder.area_faithful (.area a) ix h
  obtain ⟨hsound, hserves⟩ := hfresh.sound.run calls
  exact ⟨hsound, hserves.lookup.trans hfresh.lookup⟩

end Index

namespace Quadtree

variable {V : Type}

/-! ## Main result -/

/-- **A failing callback cuts collection off.** After any calls on a new tree, collection with a callback that may change
a state and may fail is a loop over what a callback that never fails is shown: it calls the callback on these entries in
turn, up to and including the first on which it fails, and ends with the error and the state of that call; it ends well
just if no call fails.

After any calls on an index over an area, so does a visit with the evaluators of the entries that the event satisfies. No
two of these entries are under one constant, so each evaluator is run once at most for its constant; if the evaluators
only append to the list of matches, so does the visit, also when it fails; and if the event cannot be read, the visit
fails with that error and runs no evaluator. -/
theorem stops_at_failure {g : Region} {t₀ : Quadtree V} (h : new g = .ok t₀) (ops : List (Op V)) (query : Rect) :
    let t := t₀.run ops
    (∀ {σ ε : Type} (f : Rect → V → EStateM ε σ Unit), StopsAtFailure (fun e => f e.1 e.2) (t.shown query)
      (t.collect query f) (t.collect query fun r v => noted (fun e => f e.1 e.2) (r, v))) ∧
    ∀ (a : Area) (ix₀ : Index V) (calls : List (Index.Change V)) (event : Event), Index.ofArea a = .ok ix₀ →
      let ix := ix₀.run calls
      ix.lookup = .area a ∧ ((ix.satisfied event).Pairwise fun e e' => (e.1 == e'.1) = false) ∧
      (∀ {σ : Type} (run : V → EStateM Error σ Unit) (q : Rect), a.query event = .ok q →
        StopsAtFailure run ((ix.satisfied event).map (·.2)) (ix.visit event run) (ix.visit event (noted run))) ∧
      (∀ run : V → EStateM Error (List Handle) Unit, (∀ ev m, m <+: stateLeft (run ev m)) →
        ∀ m, m <+: stateLeft (ix.visit event run m)) ∧
      ∀ {σ : Type} (run : V → EStateM Error σ Unit) (e : Error), a.query event = .error e →
        ∀ s, ix.visit event (noted run) (s, []) = .error e (s, []) := by
  intro t
  refine ⟨?_, ?_⟩
  · intro σ ε f
    have hsound : t.Sound := by
      rw [show t = (empty g).run ops by rw [← new_eq_ok h]]
      exact (run_empty_agrees g ops).sound
    rw [hsound.collect_eq, hsound.collect_eq, hsound.shown_eq]
    exact stopsAtFailure_forM _ _
  · intro a ix₀ calls event hbuilt ix
    obtain ⟨hsound, hlookup⟩ : ix.Sound ∧ ix.lookup = .area a := Index.ofArea_run hbuilt calls
    have hfault : ix.lookup.fault? event = faultOf (a.query event) := by rw [hlookup, a.query_fault]
    refine ⟨hlookup, hsound.satisfied_distinct event, ?_, fun run hrun => hsound.prefix_visit event hrun, ?_⟩
    · intro σ run q hq
      exact hsound.stopsAtFailure (by rw [hfault, hq]; rfl) run
    · intro σ run e he s
      rw [Index.visit_eq hsound, hfault, he]
      rfl

/-- takes note of one number, and fails on the next -/
def noteOne (_ : Rect) (n : Nat) : EStateM String (List Nat) Unit := fun ns =>
  if ns = [] then .ok () [n] else .error "full" ns

/-- a callback that fails on the second of three points is not called on the third, and keeps the note of the first -/
theorem stops_on_square :
    new square = .ok (empty square : Quadtree Nat) ∧
      let t := (empty square).run diagonalOps
      t.shown square.rect = [(diagonal 50, 1), (diagonal 75, 2), (diagonal 80, 3)] ∧
        (t.collect square.rect fun r n => noted (fun e => noteOne e.1 e.2) (r, n)) ([], []) =
          .error "full" ([1], [(diagonal 50, 1), (diagonal 75, 2)]) ∧
        t.collect square.rect noteOne [] = .error "full" [1] := by
  have h : new square = .ok (empty square : Quadtree Nat) := new_of_validate (by decide +kernel)
  have hshown : ((empty square).run diagonalOps).shown square.rect =
      [(diagonal 50, 1), (diagonal 75, 2), (diagonal 80, 3)] := by decide +kernel
  obtain ⟨hstops, -⟩ := stops_at_failure h diagonalOps square.rect
  have hnoted := ((hstops noteOne).fails [] "full" [1] [(diagonal 50, 1), (diagonal 75, 2)]).2
    ⟨[(diagonal 50, 1)], (diagonal 75, 2), [(diagonal 80, 3)], [1], hshown, rfl, .cons rfl (.nil _), rfl⟩
  refine ⟨h, hshown, hnoted, ?_⟩
  rw [(hstops noteOne).ending, hnoted, unnoted]

end Quadtree
end EventMatching
