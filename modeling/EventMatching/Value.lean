/-
Values: what an event carries under a property name, and what a filter compares with.

Numbers keep the type they came in, but `==` looks at the number alone: integers of all types are one domain, single and
double precision decimals another, in which any two NaN are equal. An integer never equals a decimal. `digest` is the byte
sequence fed to a hash function; it depends only on what `==` looks at.
-/
import EventMatching.Numeric.Decimal
import EventMatching.Text.Quoted

namespace EventMatching

/-- the fixed-width integer types -/
inductive IntType where
  | i8 | u8 | i16 | u16 | i32 | u32 | i64 | u64
deriving DecidableEq

namespace IntType

def name : IntType → String
  | i8 => "i8" | u8 => "u8" | i16 => "i16" | u16 => "u16" | i32 => "i32" | u32 => "u32" | i64 => "i64" | u64 => "u64"

def signed : IntType → Bool
  | i8 | i16 | i32 | i64 => true
  | u8 | u16 | u32 | u64 => false

/-- how many numbers the type has -/
def size : IntType → Nat
  | i8 | u8 => 256
  | i16 | u16 => 65536
  | i32 | u32 => 4294967296
  | i64 | u64 => 18446744073709551616

/-- `n` is a number of the type -/
def Fits (t : IntType) (n : Int) : Prop :=
  if t.signed then -(t.size : Int) ≤ 2 * n ∧ 2 * n < t.size else 0 ≤ n ∧ n < t.size

instance (t : IntType) (n : Int) : Decidable (t.Fits n) := by unfold Fits; infer_instance

end IntType

/-- the value of an event property or of a filter -/
inductive Value where
  | null
  | bool (b : Bool)
  | int (type : IntType) (n : Int) (fits : type.Fits n)
  | single (x : Binary32)
  | double (x : Binary64)
  | text (s : String)
deriving DecidableEq

namespace Value

instance : Inhabited Value := ⟨null⟩

/-- the value that a possibly absent one stands for -/
def ofOption : Option Value → Value
  | none => null
  | some v => v

def isNull : Value → Bool
  | null => true
  | _ => false

def asBool : Value → Option Bool
  | bool b => some b
  | _ => none

def asText : Value → Option String
  | text s => some s
  | _ => none

/-- the number, if the value is an integer of any type -/
def asInteger : Value → Option Int
  | int _ n _ => some n
  | _ => none

/-- the number, if the value is a decimal; single precision is widened, which is exact -/
def asDecimal : Value → Option Binary64
  | single x => some x.convert
  | double x => some x
  | _ => none

def isInteger (v : Value) : Bool := v.asInteger.isSome

def isDecimal (v : Value) : Bool := v.asDecimal.isSome

def isNumber (v : Value) : Bool := v.isInteger || v.isDecimal

/-- the name of the value's type -/
def typeName : Value → String
  | null => "null"
  | bool _ => "bool"
  | int t _ _ => t.name
  | single _ => "f32"
  | double _ => "f64"
  | text _ => "string"

/-- the number as a double: decimals as they are, integers rounded to the nearest -/
def asDouble (v : Value) : Option Binary64 :=
  match v.asDecimal with
  | some x => some x
  | none => v.asInteger.map Binary.ofInt

/-! ## Equality and its digest -/

/-- integers are equal as numbers, decimals as numbers or by both being NaN, all else by kind and content -/
def same (v w : Value) : Bool :=
  match v.asInteger, w.asInteger with
  | some m, some n => m == n
  | _, _ =>
    match v.asDecimal, w.asDecimal with
    | some x, some y => (x.isNaN && y.isNaN) || x == y
    | _, _ =>
      match v, w with
      | null, null => true
      | bool a, bool b => a == b
      | text s, text t => s == t
      | _, _ => false

instance : BEq Value := ⟨same⟩

/-- the lowest `count` bytes of a whole number in two's complement, the lowest first -/
def littleEndian : (count : Nat) → Int → List UInt8
  | 0, _ => []
  | count + 1, n => UInt8.ofNat (n % 256).toNat :: littleEndian count (n / 256)

/-- the bytes that stand for a value in a hash: a tag for the domain, then the content; a text ends with a byte that
occurs in no text -/
def digest (v : Value) : List UInt8 :=
  match v.asInteger with
  | some n => 0 :: littleEndian 16 n
  | none =>
    match v.asDecimal with
    | some x => 1 :: littleEndian 8 x.canonical.toBits
    | none =>
      match v with
      | bool b => [3, if b then 1 else 0]
      | text s => 4 :: s.toUTF8.toList ++ [255]
      | _ => [2]

/-! ## Texts -/

/-- the plain text of a value -/
def display : Value → String
  | null => "null"
  | bool b => if b then "true" else "false"
  | int _ n _ => toString n
  | single x => x.text
  | double x => x.text
  | text s => s

/-- the text of a value in which a string stands in quotes -/
def quoted : Value → String
  | text s => quote s
  | v => v.display

end Value
end EventMatching
