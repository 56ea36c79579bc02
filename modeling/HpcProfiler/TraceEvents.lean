import HpcProfiler.PythonText
import Mathlib.Logic.Function.Basic

/-!
The events of a merged trace. They are dictionaries read from JSON, so that a field can be
missing and can hold a value of any kind.
-/

namespace HpcProfiler.TraceEvents

open PythonText

/-- A list or a dictionary is given by its text. A float is given by what is taken of it:
its text, its integer part, which an infinite one does not have, and the text of its
quotient by a mebibyte, rounded down. -/
inductive Value where
  | null
  | bool (b : Bool)
  | int (n : ℤ)
  | float (text : String) (whole : Option ℤ) (mebibytes : String)
  | str (s : String)
  | compound (text : String)
  deriving DecidableEq

def Value.isInt : Value → Bool
  | .int _ => true
  | _ => false

/-- The value of int, if it raises no error. -/
def Value.toInt : Value → Option ℤ
  | .null => none
  | .bool b => some (if b then 1 else 0)
  | .int n => some n
  | .float _ whole _ => whole
  | .str s => int10 s
  | .compound _ => none

/-- The value of str. -/
def Value.text : Value → String
  | .null => "None"
  | .bool b => if b then "True" else "False"
  | .int n => toString n
  | .float text _ _ => text
  | .str s => s
  | .compound text => text

abbrev Event := String → Option Value

/-- An event with these fields. -/
def ofFields (fields : List (String × Value)) : Event := fun key => fields.lookup key

/-- The field is this text. -/
def Event.has (e : Event) (key s : String) : Bool := e key = some (.str s)

/-- The field, unless it is missing or null. -/
def Event.given (e : Event) (key : String) : Option Value :=
  (e key).filter fun value => value ≠ .null

/-- The integer in a field, if it is there and int raises no error. -/
def Event.intAt (e : Event) (key : String) : Option ℤ := (e key).bind Value.toInt

/-- The first of some fields that gives an integer. -/
def Event.firstInt (e : Event) (keys : List String) : Option ℤ := keys.findSome? e.intAt

def Event.set (e : Event) (key : String) (value : Value) : Event :=
  Function.update e key (some value)

theorem Event.has_congr {e e' : Event} {key : String} (h : e' key = e key) (s : String) :
    e'.has key s = e.has key s := by
  rw [Event.has, h, Event.has]

/-- A field is one text only. -/
theorem Event.has_other {e : Event} {key s other : String} (h : e.has key s = true)
    (hne : s ≠ other) : e.has key other = false := by
  rw [Event.has, decide_eq_true_eq] at h
  rw [Event.has, h]
  simpa using hne

theorem Event.set_same (e : Event) (key : String) (value : Value) :
    e.set key value key = some value :=
  Function.update_self ..

theorem Event.set_other {key other : String} (e : Event) (value : Value) (h : other ≠ key) :
    e.set key value other = e other :=
  Function.update_of_ne h ..

/-- A field that holds the value already is left as it is. -/
theorem Event.set_eq_self {e : Event} {key : String} {value : Value} (h : e key = some value) :
    e.set key value = e := by
  rw [Event.set, ← h, Function.update_eq_self]

theorem Event.firstInt_congr {e e' : Event} {keys : List String}
    (h : ∀ key ∈ keys, e' key = e key) : e'.firstInt keys = e.firstInt keys := by
  unfold Event.firstInt
  induction keys with
  | nil => rfl
  | cons key keys ih =>
    have hkey : e'.intAt key = e.intAt key := by
      rw [Event.intAt, h key (List.mem_cons_self ..), Event.intAt]
    have hkeys := ih fun other hother => h other (List.mem_cons_of_mem _ hother)
    rw [List.findSome?_cons, List.findSome?_cons, hkey, hkeys]

end HpcProfiler.TraceEvents
