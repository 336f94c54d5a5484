import Mathlib.Data.List.Basic

/-!
# Items between commas

Several written forms join the texts of their parts with commas and put brackets around the whole.
The parts may be written with commas of their own, so where one part ends and the next begins is not
plain from the commas alone. It is plain once brackets are counted: a comma that separates parts
stands outside of all brackets that the parts open.

`Text.Reads` counts brackets from left to right, and refuses a comma that stands outside of all of
them. An *item* is a text that gets through such a count with no bracket left open. Since it has no
comma outside of brackets, the first such comma in a row of items is the one behind the first item,
and the row can be taken apart again: `Text.items_eq_of_intercalate_eq`.

The kinds of brackets are not told apart. A text that closes a bracket with one of the other kind
would be an item as well.
-/

set_option autoImplicit false

namespace TensorTyping

namespace Text

/-! ## Counting brackets -/

/-- The number of open brackets after a character, when there are `depth` before it. There is no
answer for a bracket that closes none, and for a comma outside of brackets. -/
def readChar (depth : Nat) (c : Char) : Option Nat :=
  if c = '[' ∨ c = '(' then some (depth + 1)
  else if c = ']' ∨ c = ')' then if depth = 0 then none else some (depth - 1)
  else if c = ',' ∧ depth = 0 then none
  else some depth

/-- Read with `d` open brackets before it, the text leaves `e` of them open. -/
def Reads (d e : Nat) (s : String) : Prop := s.toList.foldlM readChar d = some e

instance (d e : Nat) (s : String) : Decidable (Reads d e s) := inferInstanceAs (Decidable (_ = _))

theorem Reads.append {d e f : Nat} {s t : String} (hs : Reads d e s) (ht : Reads e f t) :
    Reads d f (s ++ t) := by
  unfold Reads at hs ht ⊢
  rw [String.toList_append, List.foldlM_append, hs]
  exact ht

theorem readChar_succ {d e : Nat} {c : Char} (h : readChar d c = some e) :
    readChar (d + 1) c = some (e + 1) := by
  unfold readChar at h ⊢
  by_cases hopen : c = '[' ∨ c = '('
  · rw [if_pos hopen] at h ⊢
    rw [Option.some.inj h]
  · rw [if_neg hopen] at h ⊢
    by_cases hclose : c = ']' ∨ c = ')'
    · rw [if_pos hclose] at h ⊢
      rw [if_neg (Nat.succ_ne_zero d)]
      by_cases hd : d = 0
      · rw [if_pos hd] at h
        cases h
      · rw [if_neg hd] at h
        have he : d - 1 = e := Option.some.inj h
        rw [Nat.add_sub_cancel, ← he, Nat.sub_add_cancel (Nat.pos_of_ne_zero hd)]
    · rw [if_neg hclose] at h ⊢
      rw [if_neg fun hc => Nat.succ_ne_zero d hc.2]
      by_cases hcomma : c = ',' ∧ d = 0
      · rw [if_pos hcomma] at h
        cases h
      · rw [if_neg hcomma] at h
        rw [Option.some.inj h]

/-- Inside of one more bracket a text reads the same. -/
theorem Reads.succ {d e : Nat} {s : String} (hs : Reads d e s) : Reads (d + 1) (e + 1) s := by
  unfold Reads at hs ⊢
  generalize s.toList = cs at hs ⊢
  induction cs generalizing d with
  | nil =>
    rw [List.foldlM_nil] at hs ⊢
    rw [Option.some.inj hs]
    rfl
  | cons c cs ih =>
    rw [List.foldlM_cons] at hs ⊢
    obtain ⟨d', hc, hcs⟩ := Option.bind_eq_some_iff.1 hs
    rw [readChar_succ hc]
    exact ih hcs

/-- A text changes nothing when none of its characters does. -/
theorem Reads.of_forall_mem {d : Nat} {s : String} (h : ∀ c ∈ s.toList, readChar d c = some d) :
    Reads d d s := by
  unfold Reads
  generalize s.toList = cs at h ⊢
  induction cs with
  | nil => rfl
  | cons c cs ih =>
    rw [List.forall_mem_cons] at h
    rw [List.foldlM_cons, h.1]
    exact ih h.2

/-- Digits are neither brackets nor commas. -/
theorem readChar_of_isDigit (d : Nat) {c : Char} (hc : c.isDigit) : readChar d c = some d := by
  have hne : ∀ e : Char, e.isDigit = false → c ≠ e := by
    rintro e he rfl
    rw [he] at hc
    cases hc
  unfold readChar
  rw [if_neg (not_or.2 ⟨hne '[' rfl, hne '(' rfl⟩), if_neg (not_or.2 ⟨hne ']' rfl, hne ')' rfl⟩),
    if_neg fun hcomma => hne ',' rfl hcomma.1]

/-- A single text is joined to nothing, so there is no comma. -/
theorem reads_intercalate_of_length_le_one {ss : List String} (hss : ∀ s ∈ ss, Reads 0 0 s)
    (hlen : ss.length ≤ 1) : Reads 0 0 (", ".intercalate ss) := by
  rcases ss with _ | ⟨s, _ | ⟨t, ts⟩⟩
  · decide
  · rw [String.intercalate_singleton]
    exact hss s List.mem_cons_self
  · simp at hlen

/-- Inside of a bracket commas are free, so texts may be joined with them. -/
theorem Reads.intercalate {ss : List String} (hss : ∀ s ∈ ss, Reads 0 0 s) :
    Reads 1 1 (", ".intercalate ss) := by
  induction ss with
  | nil => decide
  | cons s ss ih =>
    rw [List.forall_mem_cons] at hss
    by_cases hnil : ss = []
    · rw [hnil, String.intercalate_singleton]
      exact hss.1.succ
    · rw [String.intercalate_cons_of_ne_nil hnil]
      have hcomma : Reads 1 1 ", " := by decide
      exact (hss.1.succ.append hcomma).append (ih hss.2)

/-! ## Items -/

/-- A text that can stand between commas: it is not empty, its brackets match, and it has no comma
outside of them. -/
structure IsItem (s : String) : Prop where
  /-- There is something to see. -/
  ne_empty : s ≠ ""
  /-- The count of brackets gets through. -/
  reads : Reads 0 0 s

theorem isDigit_of_mem_repr {n : Nat} {c : Char} (hc : c ∈ n.repr.toList) : c.isDigit := by
  rw [Nat.toList_repr] at hc
  exact Nat.isDigit_of_mem_toDigits (by decide) (by decide) hc

theorem isItem_repr (n : Nat) : IsItem n.repr where
  ne_empty := Nat.repr_ne_empty
  reads := Reads.of_forall_mem fun _ hc => readChar_of_isDigit 0 (isDigit_of_mem_repr hc)

/-- What stands behind the first item of a row, when the others are given. -/
def behindFirst : List String → String
  | [] => ""
  | s :: ss => ", " ++ ", ".intercalate (s :: ss)

theorem intercalate_cons (s : String) (ss : List String) :
    ", ".intercalate (s :: ss) = s ++ behindFirst ss := by
  cases ss with
  | nil => rw [String.intercalate_singleton, behindFirst, String.append_empty]
  | cons t ts =>
    rw [String.intercalate_cons_of_ne_nil (List.cons_ne_nil t ts), behindFirst, String.append_assoc]

/-- Behind the first items of two rows there is a comma in both, or nothing in both. -/
theorem intercalate_eq_of_behindFirst_eq {ss ts : List String}
    (h : behindFirst ss = behindFirst ts) : ", ".intercalate ss = ", ".intercalate ts := by
  have hne : ∀ s us, behindFirst (s :: us) ≠ "" := by
    intro s us hempty
    rw [behindFirst, String.append_eq_empty_iff] at hempty
    exact absurd hempty.1 (by decide)
  cases ss with
  | nil =>
    cases ts with
    | nil => rfl
    | cons t ts => exact absurd h.symm (hne t ts)
  | cons s ss =>
    cases ts with
    | nil => exact absurd h (hne s ss)
    | cons t ts => exact (String.append_right_inj ", ").1 h

/-- An item ends at the latest where a row goes on behind it: what of a second item would lie behind
the end of the first one starts with a comma. -/
theorem eq_nil_of_append_reads {s : String} (hs : Reads 0 0 s) {zs ys : List Char}
    {ss : List String} (hzs : (s.toList ++ zs).foldlM readChar 0 = some 0)
    (hrow : (behindFirst ss).toList = zs ++ ys) : zs = [] := by
  cases zs with
  | nil => rfl
  | cons z zs =>
    have hz : z = ',' := by
      cases ss with
      | nil => simp [behindFirst] at hrow
      | cons t ts =>
        rw [behindFirst, String.toList_append] at hrow
        exact (List.cons.inj hrow).1.symm
    unfold Reads at hs
    rw [List.foldlM_append, hs, hz] at hzs
    cases hzs

/-- The first item of a row can be told from the others. -/
theorem eq_of_append_behindFirst_eq {s t : String} {ss ts : List String} (hs : Reads 0 0 s)
    (ht : Reads 0 0 t) (h : s ++ behindFirst ss = t ++ behindFirst ts) :
    s = t ∧ behindFirst ss = behindFirst ts := by
  have hst : s = t := by
    have hchars := congrArg String.toList h
    rw [String.toList_append, String.toList_append] at hchars
    rcases List.append_eq_append_iff.1 hchars with ⟨zs, hzs, hrow⟩ | ⟨zs, hzs, hrow⟩
    · unfold Reads at ht
      rw [hzs] at ht
      rw [eq_nil_of_append_reads hs ht hrow, List.append_nil] at hzs
      exact (String.toList_inj.1 hzs).symm
    · unfold Reads at hs
      rw [hzs] at hs
      rw [eq_nil_of_append_reads ht hs hrow, List.append_nil] at hzs
      exact String.toList_inj.1 hzs
  rw [hst, String.append_right_inj] at h
  exact ⟨hst, h⟩

/-- **A row of items can be taken apart.** Rows of items that read the same have the same items. -/
theorem items_eq_of_intercalate_eq {ss ts : List String} (hss : ∀ s ∈ ss, IsItem s)
    (hts : ∀ t ∈ ts, IsItem t) (h : ", ".intercalate ss = ", ".intercalate ts) : ss = ts := by
  induction ss generalizing ts with
  | nil =>
    cases ts with
    | nil => rfl
    | cons t ts =>
      rw [String.intercalate_nil, intercalate_cons, eq_comm, String.append_eq_empty_iff] at h
      exact absurd h.1 (hts t List.mem_cons_self).ne_empty
  | cons s ss ih =>
    rw [List.forall_mem_cons] at hss
    cases ts with
    | nil =>
      rw [String.intercalate_nil, intercalate_cons, String.append_eq_empty_iff] at h
      exact absurd h.1 hss.1.ne_empty
    | cons t ts =>
      rw [List.forall_mem_cons] at hts
      rw [intercalate_cons, intercalate_cons] at h
      obtain ⟨hst, hrest⟩ := eq_of_append_behindFirst_eq hss.1.reads hts.1.reads h
      rw [hst]
      exact congrArg (t :: ·) (ih hss.2 hts.2 (intercalate_eq_of_behindFirst_eq hrest))

end Text

end TensorTyping
