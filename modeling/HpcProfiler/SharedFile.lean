import Mathlib.Data.List.Basic
import Mathlib.Tactic.TypeStar

/-!
A file with two kinds of writers. One keeps its own place and writes over what it finds
there; the others append. What the first has written is the beginning of the file, and
behind it stands an end of what was appended.
-/

namespace HpcProfiler.SharedFile

variable {α : Type*}

structure OpenFile (α : Type*) where
  data : List α
  place : ℕ

inductive Write (α : Type*)
  | own (text : List α)
  | append (text : List α)

def write (f : OpenFile α) : Write α → OpenFile α
  | .own text =>
    { data := f.data.take f.place ++ text ++ f.data.drop (f.place + text.length)
      place := f.place + text.length }
  | .append text => { f with data := f.data ++ text }

def writeAll (f : OpenFile α) (ws : List (Write α)) : OpenFile α := ws.foldl write f

/-- The file is emptied when it is opened. -/
def opened : OpenFile α := ⟨[], 0⟩

/-- The texts of the writer that keeps its place. -/
def owned (ws : List (Write α)) : List (List α) :=
  ws.filterMap fun
    | .own text => some text
    | .append _ => none

def appended (ws : List (Write α)) : List (List α) :=
  ws.filterMap fun
    | .own _ => none
    | .append text => some text

/-- What is behind the place: each own text takes as much of it as it is long. -/
def behind (rest : List α) : List (Write α) → List α
  | [] => rest
  | .own text :: ws => behind (rest.drop text.length) ws
  | .append text :: ws => behind (rest ++ text) ws

theorem writeAll_data (done rest : List α) (ws : List (Write α)) :
    writeAll ⟨done ++ rest, done.length⟩ ws =
      ⟨done ++ (owned ws).flatten ++ behind rest ws, (done ++ (owned ws).flatten).length⟩ := by
  induction ws generalizing done rest with
  | nil => simp [writeAll, owned, behind]
  | cons w ws ih =>
    cases w with
    | own text =>
      have hwrite : write ⟨done ++ rest, done.length⟩ (.own text) =
          ⟨(done ++ text) ++ rest.drop text.length, (done ++ text).length⟩ := by
        unfold write
        dsimp only
        rw [List.take_left, ← List.drop_drop, List.drop_left, List.length_append]
      have howned : owned (.own text :: ws) = text :: owned ws := rfl
      rw [writeAll, List.foldl_cons, hwrite, ← writeAll, ih, howned, behind, List.flatten_cons,
        List.append_assoc done text]
    | append text =>
      have hwrite : write ⟨done ++ rest, done.length⟩ (.append text) =
          ⟨done ++ (rest ++ text), done.length⟩ := by
        unfold write
        dsimp only
        rw [List.append_assoc]
      have howned : owned (.append text :: ws) = owned ws := rfl
      rw [writeAll, List.foldl_cons, hwrite, ← writeAll, ih, howned, behind]

theorem writeAll_opened (ws : List (Write α)) :
    (writeAll opened ws).data = (owned ws).flatten ++ behind [] ws := by
  have h := writeAll_data ([] : List α) [] ws
  rw [List.nil_append, List.nil_append, List.length_nil] at h
  rw [opened, h]

theorem behind_append (rest : List α) (ws ws' : List (Write α)) :
    behind rest (ws ++ ws') = behind (behind rest ws) ws' := by
  induction ws generalizing rest with
  | nil => rfl
  | cons w ws ih =>
    cases w with
    | own text => exact ih _
    | append text => exact ih _

/-- Own texts with nothing appended between take away as much as they are long. -/
theorem behind_own (rest : List α) (texts : List (List α)) :
    behind rest (texts.map .own) = rest.drop texts.flatten.length := by
  induction texts generalizing rest with
  | nil => rfl
  | cons text texts ih =>
    rw [List.map_cons, behind, ih, List.drop_drop, List.flatten_cons, List.length_append]

/-- Only an end of what was appended is left. -/
theorem behind_suffix {rest sent : List α} (h : rest <:+ sent) (ws : List (Write α)) :
    behind rest ws <:+ sent ++ (appended ws).flatten := by
  induction ws generalizing rest sent with
  | nil =>
    have hnone : appended ([] : List (Write α)) = [] := rfl
    rw [behind, hnone, List.flatten_nil, List.append_nil]
    exact h
  | cons w ws ih =>
    cases w with
    | own text => exact ih ((List.drop_suffix text.length rest).trans h)
    | append text =>
      have happended : appended (.append text :: ws) = text :: appended ws := rfl
      obtain ⟨before, hbefore⟩ := h
      have hmore : rest ++ text <:+ sent ++ text := by
        refine ⟨before, ?_⟩
        rw [← hbefore, List.append_assoc]
      rw [behind, happended, List.flatten_cons, ← List.append_assoc]
      exact ih hmore

/-! Files of lines. -/

section

variable [DecidableEq α] {sep : α}

/-- The lines of a text that are not empty. -/
def fullLines (sep : α) (text : List α) : List (List α) :=
  (text.splitOnP (· = sep)).filter (· ≠ [])

theorem fullLines_append (text : List α) {lines : List (List α)}
    (h : ∀ line ∈ lines, line ≠ [] ∧ sep ∉ line) :
    fullLines sep ((lines.map (· ++ [sep])).flatten ++ text) = lines ++ fullLines sep text := by
  induction lines with
  | nil => rfl
  | cons line lines ih =>
    obtain ⟨hline, hlines⟩ := List.forall_mem_cons.mp h
    have hsplit : fullLines sep (line ++ sep :: ((lines.map (· ++ [sep])).flatten ++ text)) =
        line :: fullLines sep ((lines.map (· ++ [sep])).flatten ++ text) := by
      have hplain : ∀ a ∈ line, decide (a = sep) = false := by
        intro a ha
        apply decide_eq_false
        rintro rfl
        exact hline.2 ha
      rw [fullLines, List.splitOnP_append_cons_of_forall_mem hplain sep (by simp),
        List.filter_cons_of_pos (by simpa using hline.1), fullLines]
    rw [List.map_cons, List.flatten_cons, List.append_assoc, List.append_assoc,
      List.singleton_append, hsplit, ih hlines, List.cons_append]

end

end HpcProfiler.SharedFile
