import Mathlib.Data.String.Basic
import Mathlib.Algebra.Group.Int.Defs

/-!
# JSON values

`serde_json::Value` with the accessors the SDK uses. An integer literal is a
`num`; anything else numeric is a `float`, of which only the text is kept. An
object is an entry list read by its first matching key, which is what a map
with unique keys does.
-/

namespace Resonate

inductive Json where
  | null
  | bool (b : Bool)
  | num (n : Int)
  | float (repr : String)
  | str (s : String)
  | arr (xs : List Json)
  | obj (fields : List (String × Json))

namespace Json

def get : Json → String → Option Json
  | obj fields, key => fields.lookup key
  | _, _ => none

def asStr : Json → Option String
  | str s => some s
  | _ => none

def asArray : Json → Option (List Json)
  | arr xs => some xs
  | _ => none

def asObject : Json → Option (List (String × Json))
  | obj fields => some fields
  | _ => none

def i64Max : Int := 2 ^ 63 - 1

def i64Min : Int := -2 ^ 63

def asI64 : Json → Option Int
  | num n => if i64Min ≤ n ∧ n ≤ i64Max then some n else none
  | _ => none

def asU64 : Json → Option Int
  | num n => if 0 ≤ n ∧ n < 2 ^ 64 then some n else none
  | _ => none

/-- `Map::insert`: the new entry replaces the one under the same key. -/
def insert (fields : List (String × Json)) (key : String) (v : Json) : List (String × Json) :=
  (key, v) :: fields.filter fun e => e.1 ≠ key

def remove (fields : List (String × Json)) (key : String) : List (String × Json) :=
  fields.filter fun e => e.1 ≠ key

@[simp] theorem get_obj (fields : List (String × Json)) (key : String) :
    (obj fields).get key = fields.lookup key := rfl

theorem lookup_remove (fields : List (String × Json)) (key key' : String) :
    (remove fields key).lookup key' = if key' = key then none else fields.lookup key' := by
  induction fields with
  | nil => simp [remove]
  | cons e es ih =>
    obtain ⟨k, v⟩ := e
    simp only [remove] at ih ⊢
    by_cases hk : k = key
    · subst hk
      rw [List.filter_cons_of_neg (by simp), ih, List.lookup_cons]
      by_cases h : key' = k
      · simp [h]
      · simp [h, beq_eq_false_iff_ne.mpr h]
    · rw [List.filter_cons_of_pos (by simpa using hk), List.lookup_cons, List.lookup_cons, ih]
      by_cases h : key' = k
      · subst h
        simp [hk]
      · simp [beq_eq_false_iff_ne.mpr h]

theorem lookup_insert (fields : List (String × Json)) (key key' : String) (v : Json) :
    (insert fields key v).lookup key' = if key' = key then some v else fields.lookup key' := by
  have hr : (fields.filter fun e => e.1 ≠ key).lookup key' =
      if key' = key then none else fields.lookup key' := lookup_remove fields key key'
  rw [insert, List.lookup_cons, hr]
  by_cases h : key' = key
  · simp [h]
  · simp [h, beq_eq_false_iff_ne.mpr h]

end Json

/-- `str::parse::<u64>` without its range check: at least one digit, nothing else. -/
def parseDigits (cs : List Char) : Option ℕ :=
  if cs ≠ [] ∧ cs.all Char.isDigit then
    some (cs.foldl (fun n c => n * 10 + (c.toNat - '0'.toNat)) 0)
  else none

def parseI64 (s : String) : Option Int :=
  let n : Option Int := match s.toList with
    | '-' :: cs => (parseDigits cs).map fun n => -n
    | '+' :: cs => (parseDigits cs).map fun n => n
    | cs => (parseDigits cs).map fun n => n
  n.filter fun d => Json.i64Min ≤ d ∧ d ≤ Json.i64Max

/-- Two's complement wrap-around of a 64-bit sum, as `+` on `i64` in a release build. -/
def wrapAdd (a b : Int) : Int := (a + b).bmod (2 ^ 64)

def saturatingAdd (a b : Int) : Int := max Json.i64Min (min (a + b) Json.i64Max)

end Resonate
