import Mathlib.Logic.Function.Basic
import Mathlib.Data.List.Basic

/-!
Frames for records whose fields are looked up under keys. An operation writes to some keys
and a reading depends on some keys; where none is among both, the operation leaves the
reading as it was.
-/

namespace HpcProfiler.FieldFrames

variable {κ β γ : Type*}

/-- What is read is decided by these fields. -/
def Reads (keys : List κ) (g : (κ → β) → γ) : Prop :=
  ∀ e e' : κ → β, (∀ key ∈ keys, e' key = e key) → g e' = g e

/-- The other fields stay as they are. -/
def WritesOnly (keys : List κ) (f : (κ → β) → κ → β) : Prop :=
  ∀ e key, key ∉ keys → f e key = e key

/-- No key is in both lists. -/
def apart [DecidableEq κ] (keys keys' : List κ) : Bool := keys.all fun key => !keys'.contains key

theorem not_mem_of_apart [DecidableEq κ] {keys keys' : List κ} {key : κ}
    (h : apart keys keys' = true) (hkey : key ∈ keys) : key ∉ keys' := by
  have hnot := List.all_eq_true.mp h key hkey
  simpa using hnot

variable {keys keys' : List κ}

/-- The frame rule. -/
theorem Reads.after [DecidableEq κ] {g : (κ → β) → γ} {f : (κ → β) → κ → β} (hreads : Reads keys g)
    (hwrites : WritesOnly keys' f) (h : apart keys keys' = true) (e : κ → β) :
    g (f e) = g e :=
  hreads e (f e) fun key hkey => hwrites e key (not_mem_of_apart h hkey)

theorem WritesOnly.mono {f : (κ → β) → κ → β} (h : WritesOnly keys f) (hsub : keys ⊆ keys') :
    WritesOnly keys' f :=
  fun e key hkey => h e key fun hmem => hkey (hsub hmem)

theorem WritesOnly.comp {f g : (κ → β) → κ → β} (hf : WritesOnly keys f)
    (hg : WritesOnly keys g) : WritesOnly keys fun e => g (f e) :=
  fun e key hkey => (hg (f e) key hkey).trans (hf e key hkey)

theorem writesOnly_ite {f : (κ → β) → κ → β} {p : (κ → β) → Prop} [DecidablePred p]
    (hf : WritesOnly keys f) : WritesOnly keys fun e => if p e then f e else e := by
  intro e key hkey
  dsimp only
  split
  · exact hf e key hkey
  · rfl

theorem writesOnly_update [DecidableEq κ] (key : κ) (value : (κ → β) → β) :
    WritesOnly [key] fun e => Function.update e key (value e) := by
  intro e other hother
  rw [List.mem_singleton] at hother
  exact Function.update_of_ne hother ..

end HpcProfiler.FieldFrames
