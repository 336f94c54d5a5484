import TensorTyping.Proofs.InStep
import TensorTyping.Proofs.Text.Items
import TensorTyping.Proofs.Ty.Parts
import TensorTyping.Ty.Text

/-!
# Reading types back from their texts

Names of variables, functions, interfaces and tuples are free, so a type that shows one can be
mistaken for another type. Types that are built from primitives by lists, optionals, futures,
dictionaries and plain tuples show no such names. For them both written forms can be read in one way
only.

The two forms look different: in a type expression every container has its name in front, while the
short form puts lists and optionals behind their elements. What they have in common is `Ty.Framing`.
Each puts the texts of the children, joined with commas, between a head and a tail, and these two
depend on the kind only. Given the kind, the row of the children's texts is what is left between
them, and a row can be taken apart. So a form is read in one way as soon as it shows the kind: in a
type expression this is the word up to the first bracket, and in the short form it is seen from the
end of the text.
-/

set_option autoImplicit false

namespace TensorTyping

open Text

/-- There are finitely many kinds, so what each of them has to satisfy can be tested. -/
theorem Kind.forall_of_forall_mem_all {P : Kind → Prop} (h : ∀ k ∈ all, P k) (k : Kind) : P k :=
  h k k.mem_all

namespace Ty

/-! ## Structural types -/

/-- The type is built from primitives by containers, with no names of its own. -/
inductive Structural : Ty → Prop where
  | prim (p : Primitive) : Structural (prim p)
  | list {e : Ty} (he : e.Structural) : Structural (list e)
  | optional {e : Ty} (he : e.Structural) : Structural (optional e)
  | future {e : Ty} (he : e.Structural) : Structural (future e)
  | dict {k v : Ty} (hk : k.Structural) (hv : v.Structural) : Structural (dict k v)
  | tuple {es : List Ty} (hes : ∀ e ∈ es, e.Structural) : Structural (tuple none es)

namespace Structural

theorem of_mem_children {t c : Ty} (ht : t.Structural) (hc : c ∈ t.children) : c.Structural := by
  cases ht with
  | prim p => simp [children] at hc
  | list he | optional he | future he =>
    rw [children, List.mem_singleton] at hc
    rw [hc]
    exact he
  | dict hk hv =>
    rcases List.mem_pair.1 hc with rfl | rfl
    · exact hk
    · exact hv
  | tuple hes => exact hes c hc

/-- Kind and children determine a structural type. -/
theorem eq_of_kind_of_children {a b : Ty} (ha : a.Structural) (hb : b.Structural)
    (hkind : a.kind = b.kind) (hchildren : a.children = b.children) : a = b := by
  cases ha with
  | prim p =>
    cases hb with
    | prim q => rw [Kind.primitive.inj hkind]
    | _ => cases hkind
  | list he =>
    cases hb with
    | list he' => rw [(List.cons.inj hchildren).1]
    | _ => cases hkind
  | optional he =>
    cases hb with
    | optional he' => rw [(List.cons.inj hchildren).1]
    | _ => cases hkind
  | future he =>
    cases hb with
    | future he' => rw [(List.cons.inj hchildren).1]
    | _ => cases hkind
  | dict hk hv =>
    cases hb with
    | dict hk' hv' =>
      obtain ⟨rfl, hvalue⟩ := List.cons.inj hchildren
      rw [(List.cons.inj hvalue).1]
    | _ => cases hkind
  | tuple hes =>
    cases hb with
    | tuple hes' => exact congrArg (Ty.tuple none) hchildren
    | _ => cases hkind

end Structural

/-! ## Framed texts -/

/-- A way to write types: the texts of the children in a row, between a head and a tail that depend
on the kind only. -/
structure Framing (text : Ty → String) where
  /-- What stands before the children. -/
  head : Kind → String
  /-- What stands behind the children. -/
  tail : Kind → String
  /-- The number of brackets that the head opens and the tail closes. -/
  depth : Kind → Nat
  /-- The kind that a text shows. -/
  kind? : String → Option Kind
  reads_head : ∀ k, Reads 0 (depth k) (head k)
  reads_tail : ∀ k, Reads (depth k) 0 (tail k)
  ne_empty : ∀ k, head k ++ tail k ≠ ""
  text_eq : ∀ {t : Ty}, t.Structural →
    text t = head t.kind ++ ", ".intercalate (t.children.map text) ++ tail t.kind
  /-- Where there is no bracket, there is no comma between children. -/
  children_or_depth : ∀ {t : Ty}, t.Structural →
    t.children.length ≤ 1 ∧ depth t.kind = 0 ∨ depth t.kind = 1
  kind?_text : ∀ {t : Ty}, t.Structural → kind? (text t) = some t.kind

namespace Framing

variable {text : Ty → String}

/-- Framed texts are items. -/
theorem isItem (f : Framing text) {t : Ty} (ht : t.Structural) : IsItem (text t) := by
  induction t using ind_size with
  | step t ih =>
    have hchildren : ∀ s ∈ t.children.map text, Reads 0 0 s := by
      rw [List.forall_mem_map]
      intro c hc
      exact (ih c (sizeOf_lt_of_mem_children hc) (ht.of_mem_children hc)).reads
    have hrow :
        Reads (f.depth t.kind) (f.depth t.kind) (", ".intercalate (t.children.map text)) := by
      rcases f.children_or_depth ht with ⟨hfew, hdepth⟩ | hdepth
      · rw [hdepth]
        exact reads_intercalate_of_length_le_one hchildren (by rwa [List.length_map])
      · rw [hdepth]
        exact Reads.intercalate hchildren
    rw [f.text_eq ht]
    refine ⟨fun hempty => ?_, ((f.reads_head _).append hrow).append (f.reads_tail _)⟩
    rw [String.append_eq_empty_iff, String.append_eq_empty_iff] at hempty
    apply f.ne_empty t.kind
    rw [hempty.1.1, hempty.2]
    rfl

/-- **Framed texts are read in one way.** The kind is shown, and then the row between head and tail
gives the texts of the children. -/
theorem eq_of_text_eq (f : Framing text) {a b : Ty} (ha : a.Structural) (hb : b.Structural)
    (htext : text a = text b) : a = b := by
  induction a using ind_size generalizing b with
  | step a ih =>
    have hkind : a.kind = b.kind := by
      apply Option.some.inj
      rw [← f.kind?_text ha, htext, f.kind?_text hb]
    have hrow :
        ", ".intercalate (a.children.map text) = ", ".intercalate (b.children.map text) := by
      rw [f.text_eq ha, f.text_eq hb, hkind, String.append_left_inj,
        String.append_right_inj] at htext
      exact htext
    have hitems : a.children.map text = b.children.map text := by
      apply items_eq_of_intercalate_eq _ _ hrow
      · rw [List.forall_mem_map]
        exact fun c hc => f.isItem (ha.of_mem_children hc)
      · rw [List.forall_mem_map]
        exact fun c hc => f.isItem (hb.of_mem_children hc)
    have hchildren : a.children = b.children := by
      rw [← List.forall₂_eq_eq_eq, List.forall₂_map_left_iff, List.forall₂_map_right_iff] at hitems
      rw [← List.forall₂_eq_eq_eq]
      refine forall₂_imp_of_mem (fun c hc d hd hcd => ?_) hitems
      exact ih c (sizeOf_lt_of_mem_children hc) (ha.of_mem_children hc) (hb.of_mem_children hd) hcd
    exact ha.eq_of_kind_of_children hb hkind hchildren

end Framing

/-! ## Type expressions -/

theorem expressions_eq_map (ts : List Ty) : expressions ts = ts.map expression := by
  induction ts with
  | nil => rfl
  | cons t ts ih => rw [expressions, ih, List.map_cons]

/-- The name of the kind, and for a container the bracket it opens. -/
def expressionHead (k : Kind) : String := if k.isContainer then k.name ++ "[" else k.name

/-- The bracket that a container closes. -/
def expressionTail (k : Kind) : String := if k.isContainer then "]" else ""

/-- The kind whose name stands before the first bracket. -/
def expressionKind? (s : String) : Option Kind :=
  Kind.ofName? (String.ofList (s.toList.takeWhile (· != '[')))

theorem expression_eq_framed {t : Ty} (ht : t.Structural) :
    t.expression = expressionHead t.kind ++ ", ".intercalate (t.children.map expression) ++
      expressionTail t.kind := by
  cases ht with
  | prim p | list he | optional he | future he =>
    simp [expression, kind, children, expressionHead, expressionTail, Kind.isContainer, Kind.name]
  | dict hk hv =>
    simp [expression, kind, children, expressionHead, expressionTail, Kind.isContainer, Kind.name,
      String.append_assoc]
  | tuple hes =>
    simp [expression, kind, children, expressionHead, expressionTail, Kind.isContainer, Kind.name,
      expressions_eq_map]

/-- No name of a kind has a bracket in it, so the name ends where the bracket opens. -/
theorem expressionKind?_name_append (k : Kind) (s : String) :
    expressionKind? (k.name ++ ("[" ++ s)) = some k := by
  have hname : ∀ c ∈ k.name.toList, (c != '[') = true := by
    rw [← List.all_eq_true]
    revert k
    exact Kind.forall_of_forall_mem_all (by decide)
  unfold expressionKind?
  rw [String.toList_append, List.takeWhile_append_of_pos hname, String.toList_append]
  show Kind.ofName? (String.ofList (k.name.toList ++ [])) = some k
  rw [List.append_nil, String.ofList_toList, Kind.ofName?_name]

/-- Type expressions, with the name of the kind in front. -/
def expressionFraming : Framing expression where
  head := expressionHead
  tail := expressionTail
  depth k := if k.isContainer then 1 else 0
  kind? := expressionKind?
  reads_head := Kind.forall_of_forall_mem_all (by decide)
  reads_tail := Kind.forall_of_forall_mem_all (by decide)
  ne_empty := Kind.forall_of_forall_mem_all (by decide)
  text_eq := expression_eq_framed
  children_or_depth ht := by
    cases ht with
    | prim p => exact .inl ⟨Nat.zero_le _, rfl⟩
    | _ => exact .inr rfl
  kind?_text {t} ht := by
    by_cases hcontainer : t.kind.isContainer
    · rw [expression_eq_framed ht, expressionHead, if_pos hcontainer, String.append_assoc,
        String.append_assoc]
      exact expressionKind?_name_append _ _
    · cases ht with
      | prim p => cases p <;> decide
      | _ => exact absurd rfl hcontainer

/-! ## The short form -/

theorem displays_eq_map (ts : List Ty) : displays ts = ts.map display := by
  induction ts with
  | nil => rfl
  | cons t ts ih => rw [displays, ih, List.map_cons]

/-- What stands before the children: nothing, where they come first. -/
def displayHead : Kind → String
  | .primitive p => p.shortName
  | .list | .optional => ""
  | .future => "Future["
  | .dict => "Dict("
  | .tuple => "("
  | k => k.name

/-- What stands behind the children. -/
def displayTail : Kind → String
  | .list => "[]"
  | .optional => "?"
  | .future => "]"
  | .dict | .tuple => ")"
  | _ => ""

/-- The kind, as the last characters of a text show it. They leave open whether a closing
parenthesis is that of a tuple or that of a dictionary, which the first character tells. -/
def displayKind? (s : String) : Option Kind :=
  if s.toList.getLast? = some '?' then some .optional
  else if s.toList.getLast? = some ']' then
    if s.toList.dropLast.getLast? = some '[' then some .list else some .future
  else if s.toList.getLast? = some ')' then
    if s.toList.head? = some '(' then some .tuple else some .dict
  else (Primitive.all.find? (·.shortName == s)).map .primitive

theorem display_eq_framed {t : Ty} (ht : t.Structural) :
    t.display = displayHead t.kind ++ ", ".intercalate (t.children.map display) ++
      displayTail t.kind := by
  cases ht with
  | prim p | list he | optional he | future he =>
    simp [display, kind, children, displayHead, displayTail]
  | dict hk hv => simp [display, kind, children, displayHead, displayTail, String.append_assoc]
  | tuple hes => simp [display, kind, children, displayHead, displayTail, displays_eq_map]

/-- No text ends with an opening bracket, so a pair of brackets at the end of a text is that of a
list. -/
theorem exists_getLast?_display {t : Ty} (ht : t.Structural) :
    ∃ c, t.display.toList.getLast? = some c ∧ c ≠ '[' := by
  rw [display_eq_framed ht, String.toList_append, List.getLast?_append]
  cases ht with
  | prim p => cases p <;> exact ⟨_, rfl, by decide⟩
  | list he | future he => exact ⟨']', by simp [kind, displayTail], by decide⟩
  | optional he => exact ⟨'?', by simp [kind, displayTail], by decide⟩
  | dict hk hv | tuple hes => exact ⟨')', by simp [kind, displayTail], by decide⟩

theorem displayKind?_display {t : Ty} (ht : t.Structural) :
    displayKind? t.display = some t.kind := by
  cases ht with
  | prim p => cases p <;> decide
  | list he => simp [displayKind?, display, kind]
  | optional he => simp [displayKind?, display, kind]
  | @future e he =>
    obtain ⟨c, hlast, hc⟩ := exists_getLast?_display he
    have hbefore : ("Future[" ++ e.display).toList.getLast? = some c := by
      rw [String.toList_append, List.getLast?_append, hlast]
      rfl
    have hall : (future e).display.toList = ("Future[" ++ e.display).toList ++ [']'] :=
      String.toList_append
    unfold displayKind?
    rw [hall, List.getLast?_concat, List.dropLast_concat, hbefore]
    simp [hc, kind]
  | @dict k v hk hv =>
    have hall : (dict k v).display.toList =
        ("Dict(" ++ k.display ++ ", " ++ v.display).toList ++ [')'] := String.toList_append
    unfold displayKind?
    rw [hall, List.getLast?_concat]
    simp [kind]
  | @tuple es hes =>
    have hall : (tuple none es).display.toList =
        ("(" ++ ", ".intercalate (displays es)).toList ++ [')'] := String.toList_append
    unfold displayKind?
    rw [hall, List.getLast?_concat]
    simp [kind]

/-- The short form, with lists and optionals behind their elements. -/
def displayFraming : Framing display where
  head := displayHead
  tail := displayTail
  depth
    | .future | .dict | .tuple => 1
    | _ => 0
  kind? := displayKind?
  reads_head := Kind.forall_of_forall_mem_all (by decide)
  reads_tail := Kind.forall_of_forall_mem_all (by decide)
  ne_empty := Kind.forall_of_forall_mem_all (by decide)
  text_eq := display_eq_framed
  children_or_depth ht := by
    cases ht with
    | prim p => exact .inl ⟨Nat.zero_le _, rfl⟩
    | list he | optional he => exact .inl ⟨Nat.le_refl _, rfl⟩
    | _ => exact .inr rfl
  kind?_text := displayKind?_display

/-- **Both written forms of structural types are read in one way only.** -/
theorem texts_uniquely_readable {a b : Ty} (ha : a.Structural) (hb : b.Structural) :
    (a.expression = b.expression ↔ a = b) ∧ (a.display = b.display ↔ a = b) := by
  constructor
  · exact ⟨expressionFraming.eq_of_text_eq ha hb, congrArg expression⟩
  · exact ⟨displayFraming.eq_of_text_eq ha hb, congrArg display⟩

/-- The same primitives with the same brackets around them, nested in two ways. In the short form the
texts are `((int, int)[]?, int)` and `((int, int)?[], int)`. -/
theorem texts_uniquely_readable_nested :
    let pair := tuple none [prim .int, prim .int]
    let a := tuple none [optional (list pair), prim .int]
    let b := tuple none [list (optional pair), prim .int]
    (a.Structural ∧ b.Structural) ∧ a.expression ≠ b.expression ∧ a.display ≠ b.display := by
  intro pair a b
  have hpair : pair.Structural := .tuple (by simp [Structural.prim])
  have ha : a.Structural := .tuple (by simp [Structural.prim, hpair.list.optional])
  have hb : b.Structural := .tuple (by simp [Structural.prim, hpair.optional.list])
  have hne : a ≠ b := by simp [a, b]
  obtain ⟨hexpression, hdisplay⟩ := texts_uniquely_readable ha hb
  exact ⟨⟨ha, hb⟩, fun h => hne (hexpression.1 h), fun h => hne (hdisplay.1 h)⟩

end Ty

end TensorTyping
