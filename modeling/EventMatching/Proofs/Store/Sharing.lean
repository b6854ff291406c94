/-
Which lookups share an index.

The registry files an index under the operator and the key of its lookup (`registryKey_iff`), and each index under one
key only, so what one live index serves has one key. For separable lookups that means one meaning: the same kind, the
same expressions and equal regions (`shared_of_key`). Expressions are joined to a key as they are, so lookups that are
not separable may share an index although they read different fields (`shared_by_comma`).
-/
import EventMatching.Proofs.Lookup
import EventMatching.Proofs.Store.Runs

namespace EventMatching

theorem registryKey_iff {op op' : Operator} {l l' : Lookup} :
    registryKey op l = registryKey op' l' ↔ op = op' ∧ l.key = l'.key := by
  constructor
  · intro h
    -- the displays of operators differ in their first characters
    have hhead : ∀ (op : Operator) (l : Lookup), (registryKey op l).toList.head? = op.display.toList.head? := by
      intro op l
      rw [registryKey, String.toList_append, String.toList_append, List.append_assoc]
      cases op <;> rfl
    have hop : op.display.toList.head? = op'.display.toList.head? := by rw [← hhead op l, h, hhead]
    obtain rfl : op = op' := by
      revert hop
      cases op <;> cases op' <;> decide
    refine ⟨rfl, ?_⟩
    rwa [registryKey, registryKey, String.append_assoc, String.append_assoc, String.append_right_inj,
      String.append_right_inj] at h
  · rintro ⟨rfl, h⟩
    rw [registryKey, registryKey, h]

namespace Session

/-! ## Main result -/

/-- **What shares an index.** Lookups over regions without NaN that agree have one key. Two separable ones have one key
only if they agree, and two areas, separable or not, exactly if their expressions are one text and their regions equal.
After any calls on an empty store, a live index is served under one operator and one key only; so it is never served for
two separable lookups that read different expressions. -/
theorem shared_of_key {l l' : Lookup} (hn : l.Numeric) (hn' : l'.Numeric) :
    (l.Separable → l'.Separable → (l.key = l'.key ↔ l.Agrees l')) ∧
    (∀ a b, l = .area a → l' = .area b →
      (l.key = l'.key ↔ a.expression = b.expression ∧ (a.region == b.region) = true)) ∧
    ∀ (areas : Bool) (calls : List Call) (op op' : Operator) (i : IndexId),
      let s := ((start areas).run calls).store
      s.live? op l = some i → s.live? op' l' = some i →
        op = op' ∧ l.key = l'.key ∧ (l.Separable → l'.Separable → l.Agrees l') := by
  refine ⟨?_, ?_, ?_⟩
  · exact Lookup.key_iff hn hn'
  · rintro a b rfl rfl
    exact Lookup.area_key_iff hn hn'
  · intro areas calls op op' i s hl hl'
    have hs : Coherent s _ := run_coherent (start_coherent areas) calls
    obtain ⟨hop, hkey⟩ := registryKey_iff.1 (hs.sound.key_unique hl hl')
    exact ⟨hop, hkey, fun hsep hsep' => (Lookup.key_iff hn hn' hsep hsep').1 hkey⟩

/-- reads a rectangle on the square by the properties of these names -/
def placeOn (x y : String) : Lookup := .area (.properties x y "w" "h" Quadtree.square)

/-- two areas without commas have two keys, and no index is live for both -/
theorem unshared_on_square :
    (placeOn "a" "b").key ≠ (placeOn "b" "a").key ∧
      let s := ((start true).run [.getOrCreate .area (placeOn "a" "b"), .getOrCreate .area (placeOn "b" "a")]).store
      s.live? .area (placeOn "a" "b") = some ⟨0⟩ ∧ s.live? .area (placeOn "b" "a") ≠ some ⟨0⟩ := by
  have hfirst : (placeOn "a" "b").Numeric := by decide +kernel
  have hsecond : (placeOn "b" "a").Numeric := by decide +kernel
  obtain ⟨hkey, -, hlive⟩ := shared_of_key hfirst hsecond
  have hne : (placeOn "a" "b").key ≠ (placeOn "b" "a").key := by
    intro h
    have hagrees := (hkey (by decide +kernel) (by decide +kernel)).1 h
    revert hagrees
    decide +kernel
  have hserved : ((start true).run [.getOrCreate .area (placeOn "a" "b"), .getOrCreate .area (placeOn "b" "a")]).store.live?
      .area (placeOn "a" "b") = some ⟨0⟩ := by decide +kernel
  exact ⟨hne, hserved, fun h => hne (hlive true _ .area .area ⟨0⟩ hserved h).2.1⟩

/-- two areas over different expressions that join to one text are served from one index -/
theorem shared_by_comma :
    (placeOn "a,b" "c").Numeric ∧ (placeOn "a" "b,c").Numeric ∧ ¬(placeOn "a,b" "c").Agrees (placeOn "a" "b,c") ∧
      (placeOn "a,b" "c").key = (placeOn "a" "b,c").key ∧
      let s := ((start true).run [.getOrCreate .area (placeOn "a,b" "c")]).store
      s.live? .area (placeOn "a,b" "c") = some ⟨0⟩ ∧ Action.getOrCreate .area (placeOn "a" "b,c") s = .ok ⟨0⟩ s := by
  refine ⟨by decide +kernel, by decide +kernel, by decide +kernel, by decide +kernel, by decide +kernel, ?_⟩
  have hlive : ((start true).run [.getOrCreate .area (placeOn "a,b" "c")]).store.live? .area (placeOn "a" "b,c") =
      some ⟨0⟩ := by decide +kernel
  rw [Action.getOrCreate_eq, hlive]

end Session
end EventMatching
