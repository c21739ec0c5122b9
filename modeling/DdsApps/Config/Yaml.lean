import DdsApps.Infra.CLib
import Mathlib.Data.List.Basic

/-!
# The config documents

What the applications see of yaml-cpp: the parsed document (`Node`), access by key, and the
conversions `as<T>(fallback)`. yaml-cpp is not part of the repository; which scalars a type
accepts is a parameter (`YamlCpp`), and `YamlCpp.plain` is one that runs.
-/

namespace DdsApps.Config

open DdsApps.Infra

/-! ## Nodes -/

/-- A parsed YAML node. Looking up what is not there gives `undefined`. -/
inductive Node
  | undefined
  | null
  | scalar (text : String)
  | sequence (items : List Node)
  | map (entries : List (Node × Node))

/-- Why `init` stops before it creates anything. -/
inductive Stop
  /-- the exception `YAML::BadSubscript` -/
  | badSubscript
  /-- `return false` after this line -/
  | refused (message : String)
deriving DecidableEq, Repr

/-- The value of the first entry with a given key. -/
def findEntry (key : String) : List (Node × Node) → Node
  | (.scalar k, v) :: rest => if k = key then v else findEntry key rest
  | _ :: rest => findEntry key rest
  | [] => .undefined

/-- What is under a key, if anything. -/
def Node.lookup (key : String) : Node → Node
  | .map entries => findEntry key entries
  | _ => .undefined

/-- A scalar has nothing under it, and asking throws. -/
def Node.Subscriptable : Node → Prop
  | .scalar _ => False
  | _ => True

/-- `node[key]` -/
def Node.get (key : String) : Node → Except Stop Node
  | .scalar _ => .error .badSubscript
  | n => .ok (n.lookup key)

theorem Node.get_eq_ok_iff {key : String} {n m : Node} :
    n.get key = .ok m ↔ n.Subscriptable ∧ m = n.lookup key := by
  cases n <;> simp [Node.get, Node.Subscriptable, eq_comm]

/-! ## Conversions -/

/-- `convert<T>::decode` for the types the applications ask for (`none`: not convertible). -/
structure YamlCpp where
  asBool : Node → Option Bool
  asUInt8 : Node → Option UInt8
  asString : Node → Option String
  /-- The integer a node denotes, before a type narrows it. -/
  asInteger : Node → Option Int
  undefined_not_convertible : asBool .undefined = none ∧ asUInt8 .undefined = none ∧
    asString .undefined = none ∧ asInteger .undefined = none

/-- `convert<uint16_t>`: the integer, when it fits. -/
def YamlCpp.asUInt16 (yaml : YamlCpp) (n : Node) : Option UInt16 :=
  match yaml.asInteger n with
  | some v => if 0 ≤ v ∧ v < 65536 then some (UInt16.ofNat v.toNat) else none
  | none => none

theorem YamlCpp.asUInt16_of_asInteger {yaml : YamlCpp} {n : Node} {v : Int}
    (h : yaml.asInteger n = some v) :
    yaml.asUInt16 n = if 0 ≤ v ∧ v < 65536 then some (UInt16.ofNat v.toNat) else none := by
  simp only [YamlCpp.asUInt16, h]

/-- Only the integer 0 becomes the 16-bit 0. -/
theorem YamlCpp.asUInt16_eq_zero_iff {yaml : YamlCpp} {n : Node} :
    yaml.asUInt16 n = some 0 ↔ yaml.asInteger n = some 0 := by
  cases h : yaml.asInteger n with
  | none => simp [YamlCpp.asUInt16, h]
  | some v =>
    rw [yaml.asUInt16_of_asInteger h]
    split
    · next hv =>
      rw [Option.some_inj, Option.some_inj, ← UInt16.toNat_inj, UInt16.toNat_ofNat',
        Nat.mod_eq_of_lt (by omega)]
      show v.toNat = 0 ↔ v = 0
      omega
    · next hv =>
      rw [Option.some_inj]
      constructor
      · intro hnone
        cases hnone
      · rintro rfl
        exact absurd ⟨by decide, by decide⟩ hv

/-! ## A yaml-cpp that runs -/

/-- The number a scalar of digits denotes. -/
def readDigits (s : String) : Option Nat :=
  if s.toList ≠ [] ∧ s.toList.all Char.isDigit then some (decimalValue s.toList) else none

/-- Plain decimal numbers, `true` and `false`; every scalar is a string. -/
def YamlCpp.plain : YamlCpp where
  asBool
    | .scalar "true" => some true
    | .scalar "false" => some false
    | _ => none
  asUInt8
    | .scalar s => (readDigits s).bind fun v => if v < 256 then some (UInt8.ofNat v) else none
    | _ => none
  asString
    | .scalar s => some s
    | _ => none
  asInteger
    | .scalar s => (readDigits s).map fun v => (v : Int)
    | _ => none
  undefined_not_convertible := ⟨rfl, rfl, rfl, rfl⟩

end DdsApps.Config
