import Mathlib.Data.List.Perm.Basic
import Mathlib.Data.List.Nodup
import TensorTyping.Json.Facts

/-!
# Every spelling of tensor facts is read back

Writing spells out all six facts, each unknown one in its own way: `null` for a fact with a single
value, an object around `null` for a shape without a rank, and `null` in the place of an extent.
Reading accepts more than what is written. An object may leave out keys, may have its members in any
order and may have members of other keys; an array may end early; a name may be the one key of an
object. Devices and shapes inside a description have the same freedom.

None of this changes what is read. What may stand for a value is a relation between values and
documents, put together as the data is: `Json.SpelledTag`, `Json.SpelledKnown`, `Json.SpelledList`,
and `Json.Spells` for records. Each reader gives back the value from all documents that spell it
(`Json.ReadsBack`), and each writer puts down one of them.
-/

set_option autoImplicit false

namespace TensorTyping

namespace Json

variable {α : Type} {Spelled : α → Json → Prop} {read : Json → Option α} {write : α → Json}

/-! ## Values -/

/-- The one way in which `write` puts a value. -/
def SpelledAs (write : α → Json) (a : α) (j : Json) : Prop := j = write a

/-- The name `tag` of a choice without data, as a string or as the one key of an object. -/
def SpelledTag (tag : String) (j : Json) : Prop := j = str tag ∨ j = obj [(tag, null)]

/-- Either `null`, for an unknown fact, or a spelling of the value. -/
def SpelledKnown (Spelled : α → Json → Prop) : Known α → Json → Prop
  | none, j => j = null
  | some a, j => Spelled a j

/-- An array of spellings of the values, one by one. -/
def SpelledList (Spelled : α → Json → Prop) (as : List α) (j : Json) : Prop :=
  ∃ items, j = arr items ∧ List.Forall₂ Spelled as items

/-- From whatever spells a value, `read` gives that value. -/
def ReadsBack (Spelled : α → Json → Prop) (read : Json → Option α) : Prop :=
  ∀ a j, Spelled a j → read j = some a

theorem SpelledTag.tag?_eq {tag : String} {j : Json} (h : SpelledTag tag j) :
    j.tag? = some tag := by
  rcases h with rfl | rfl
  · rfl
  · rfl

theorem not_spelledTag_null {tag : String} : ¬ SpelledTag tag null := by
  rintro (h | h)
  · cases h
  · cases h

theorem natBelow?_ofNat {n bound : Nat} (h : n < bound) : (ofNat n).natBelow? bound = some n :=
  if_pos h

theorem readsBack_word64 : ReadsBack (SpelledAs (.ofNat ·.toNat)) word64? := by
  rintro w _ rfl
  unfold word64?
  rw [natBelow?_ofNat w.toNat_lt_size, Option.map_some, UInt64.ofNat_toNat]

theorem readsBack_word16 : ReadsBack (SpelledAs (.ofNat ·.toNat)) word16? := by
  rintro w _ rfl
  unfold word16?
  rw [natBelow?_ofNat w.toNat_lt_size, Option.map_some, UInt16.ofNat_toNat]

theorem readsBack_bool : ReadsBack (SpelledAs bool) bool? := by
  rintro b _ rfl
  rfl

theorem known?_of_ne_null {j : Json} (h : j ≠ null) : known? read j = (read j).map some := by
  unfold known?
  split
  · exact absurd rfl h
  · rfl

/-- An unknown fact is told from a known one, because `null` spells no known value. -/
theorem ReadsBack.known (h : ReadsBack Spelled read) (hnull : ∀ a, ¬ Spelled a null) :
    ReadsBack (SpelledKnown Spelled) (known? read) := by
  intro a j hj
  cases a with
  | none =>
    rw [show j = null from hj]
    rfl
  | some a =>
    have hne : j ≠ null := by
      rintro rfl
      exact hnull a hj
    rw [known?_of_ne_null hne, h a j hj, Option.map_some]

theorem ReadsBack.list (h : ReadsBack Spelled read) :
    ReadsBack (SpelledList Spelled) (list? read) := by
  rintro as _ ⟨items, rfl, hitems⟩
  show items.mapM read = some as
  induction hitems with
  | nil => rfl
  | cons hitem _ ih =>
    rw [List.mapM_cons, h _ _ hitem, ih]
    rfl

theorem spelledAs_write (a : α) : SpelledAs write a (write a) := rfl

theorem spelledKnown_ofKnown (h : ∀ a, Spelled a (write a)) (a : Known α) :
    SpelledKnown Spelled a (ofKnown write a) := by
  cases a with
  | none => rfl
  | some a => exact h a

theorem spelledList_ofList (h : ∀ a, Spelled a (write a)) (as : List α) :
    SpelledList Spelled as (ofList write as) := by
  refine ⟨as.map write, rfl, ?_⟩
  rw [List.forall₂_map_right_iff, List.forall₂_same]
  exact fun a _ => h a

/-! ## Records

A record is given by its keys, by what may stand under each of them, and by which of them may be
left out. -/

/-- The members of an object; no other value has any. -/
def members : Json → List (String × Json)
  | obj ms => ms
  | _ => []

/-- The documents that spell a record with the given keys. Under `key` there is a value of which
`SpelledAt key` holds, or nothing at all where `Lacks key` holds. -/
inductive Spells (keys : List String) (least : Nat) (SpelledAt : String → Json → Prop)
    (Lacks : String → Prop) : Json → Prop
  /-- Members in any order, each key once, and with members of other keys between them. -/
  | object {ms : List (String × Json)} (honce : ((ms.map Prod.fst).filter (· ∈ keys)).Nodup)
    (hspelled : ∀ m ∈ ms, m.1 ∈ keys → SpelledAt m.1 m.2)
    (hlacks : ∀ key ∈ keys, key ∉ ms.map Prod.fst → Lacks key) :
    Spells keys least SpelledAt Lacks (obj ms)
  /-- The values under the leading keys, in their order. -/
  | array {items : List Json} (hleast : least ≤ items.length) (hmost : items.length ≤ keys.length)
    (hspelled : ∀ m ∈ keys.zip items, SpelledAt m.1 m.2)
    (hlacks : ∀ key ∈ keys.drop items.length, Lacks key) :
    Spells keys least SpelledAt Lacks (arr items)

section Records

variable {keys : List String} {least : Nat} {SpelledAt : String → Json → Prop}
  {Lacks : String → Prop} {ms : List (String × Json)} {key : String}

theorem not_spells_null : ¬ Spells keys least SpelledAt Lacks null := by
  intro h
  cases h

/-- What a reader finds under a key: a spelling of the value, or nothing. -/
def Finds (SpelledAt : String → Json → Prop) (Lacks : String → Prop) (ms : List (String × Json))
    (key : String) : Prop :=
  (∃ j, ms.lookup key = some j ∧ SpelledAt key j) ∨ ms.lookup key = none ∧ Lacks key

theorem finds_of_mem (hspelled : ∀ j, (key, j) ∈ ms → SpelledAt key j)
    (hlacks : key ∉ ms.map Prod.fst → Lacks key) : Finds SpelledAt Lacks ms key := by
  rcases h : ms.lookup key with _ | j
  · refine .inr ⟨h, hlacks ?_⟩
    rw [List.lookup_eq_none_iff] at h
    rw [List.mem_map]
    rintro ⟨m, hm, rfl⟩
    simpa using h m hm
  · refine .inl ⟨j, h, hspelled j ?_⟩
    obtain ⟨before, after, rfl, _⟩ := List.lookup_eq_some_iff.1 h
    exact List.mem_append_right _ List.mem_cons_self

theorem map_fst_zip_eq_take (keys : List String) (items : List Json) :
    (keys.zip items).map Prod.fst = keys.take items.length := by
  induction keys generalizing items with
  | nil => simp
  | cons key keys ih =>
    cases items with
    | nil => rfl
    | cons item items =>
      rw [List.zip_cons_cons, List.map_cons, ih, List.length_cons, List.take_succ_cons]

/-- Objects and arrays differ no more once their members are taken: all that counts is what is found
under the keys. -/
theorem Spells.exists_finds {j : Json} (h : Spells keys least SpelledAt Lacks j) :
    ∃ ms, j.record? keys least = some ms ∧ ∀ key ∈ keys, Finds SpelledAt Lacks ms key := by
  cases h with
  | @object ms honce hspelled hlacks =>
    refine ⟨ms, if_pos honce, fun key hkey => ?_⟩
    exact finds_of_mem (fun j hj => hspelled _ hj hkey) (hlacks key hkey)
  | @array items hleast hmost hspelled hlacks =>
    refine ⟨keys.zip items, if_pos ⟨hleast, hmost⟩, fun key hkey => ?_⟩
    refine finds_of_mem (fun j hj => hspelled _ hj) fun hout => hlacks key ?_
    -- a key is among those that got a value, or it is one of the rest
    rw [map_fst_zip_eq_take] at hout
    rw [← List.take_append_drop items.length keys, List.mem_append] at hkey
    exact hkey.resolve_left hout

theorem Finds.memberD {default a : α} (h : Finds SpelledAt Lacks ms key)
    (hread : ∀ j, SpelledAt key j → read j = some a) (hdefault : Lacks key → a = default) :
    memberD ms key default read = some a := by
  unfold Json.memberD
  rcases h with ⟨j, hj, hspelled⟩ | ⟨hnone, hlacks⟩
  · rw [hj]
    exact hread j hspelled
  · rw [hnone, hdefault hlacks]

theorem Finds.member? {a : α} (h : Finds SpelledAt Lacks ms key)
    (hread : ∀ j, SpelledAt key j → read j = some a) (hpresent : ¬ Lacks key) :
    member? ms key read = some a := by
  unfold Json.member?
  rcases h with ⟨j, hj, hspelled⟩ | ⟨_, hlacks⟩
  · rw [hj]
    exact hread j hspelled
  · exact absurd hlacks hpresent

/-! ## Records as they are written -/

/-- Items under the leading keys are the leading members. -/
theorem zip_take_snd (ms : List (String × Json)) (n : Nat) :
    (ms.map Prod.fst).zip ((ms.map Prod.snd).take n) = ms.take n := by
  induction ms generalizing n with
  | nil => simp
  | cons m ms ih =>
    cases n with
    | zero => simp
    | succ n =>
      rw [List.map_cons, List.map_cons, List.take_succ_cons, List.zip_cons_cons, ih,
        List.take_succ_cons]

variable {written : List (String × Json)}

/-- An object that is written with all keys may lose members that are lacking, may get members of
other keys, and may be put in any order. -/
theorem spells_of_perm (hkeys : written.map Prod.fst = keys) (hnodup : keys.Nodup)
    (hwritten : ∀ m ∈ written, SpelledAt m.1 m.2) {omitted : List String}
    {foreign : List (String × Json)} (homitted : ∀ key ∈ omitted, Lacks key)
    (hforeign : ∀ m ∈ foreign, m.1 ∉ keys)
    (hperm : ms.Perm (written.filter (·.1 ∉ omitted) ++ foreign)) :
    Spells keys least SpelledAt Lacks (obj ms) := by
  refine .object ?once (fun m hm hkey => ?spelled) fun key hkey hout => ?lacks
  case once =>
    -- foreign keys do not count, and what is left of the others was written under different keys
    have hnone : (foreign.map Prod.fst).filter (· ∈ keys) = [] := by
      rw [List.filter_eq_nil_iff, List.forall_mem_map]
      intro m hm
      rw [decide_eq_true_iff]
      exact hforeign m hm
    rw [((hperm.map Prod.fst).filter _).nodup_iff, List.map_append, List.filter_append, hnone,
      List.append_nil]
    rw [← hkeys] at hnodup
    exact (hnodup.sublist (List.filter_sublist.map Prod.fst)).filter _
  case spelled =>
    rcases List.mem_append.1 (hperm.mem_iff.1 hm) with hown | hother
    · exact hwritten m (List.mem_filter.1 hown).1
    · exact absurd hkey (hforeign m hother)
  case lacks =>
    apply homitted
    by_contra hkept
    rw [← hkeys] at hkey
    obtain ⟨m, hm, rfl⟩ := List.mem_map.1 hkey
    apply hout
    apply List.mem_map_of_mem
    rw [hperm.mem_iff, List.mem_append, List.mem_filter]
    exact .inl ⟨hm, decide_eq_true hkept⟩

/-- The array of the written values may end before values that are all lacking. -/
theorem spells_take (hkeys : written.map Prod.fst = keys)
    (hwritten : ∀ m ∈ written, SpelledAt m.1 m.2) {n : Nat} (hn : least ≤ n)
    (hall : least ≤ keys.length) (hcut : ∀ key ∈ keys.drop n, Lacks key) :
    Spells keys least SpelledAt Lacks (arr ((written.map Prod.snd).take n)) := by
  have hlength : ((written.map Prod.snd).take n).length = min n keys.length := by
    rw [List.length_take, List.length_map, ← hkeys, List.length_map]
  refine .array ?_ ?_ (fun m hm => ?_) fun key hkey => ?_
  · rw [hlength]
    exact Nat.le_min.2 ⟨hn, hall⟩
  · rw [hlength]
    exact Nat.min_le_right n keys.length
  · rw [← hkeys, zip_take_snd] at hm
    exact hwritten m (List.mem_of_mem_take hm)
  · apply hcut
    rw [hlength] at hkey
    rcases Nat.le_total n keys.length with hle | hge
    · rwa [Nat.min_eq_left hle] at hkey
    · rw [Nat.min_eq_right hge, List.drop_length] at hkey
      cases hkey

/-- What is written spells the record. -/
theorem spells_written (hkeys : written.map Prod.fst = keys) (hnodup : keys.Nodup)
    (hwritten : ∀ m ∈ written, SpelledAt m.1 m.2) :
    Spells keys least SpelledAt Lacks (obj written) := by
  apply spells_of_perm hkeys hnodup hwritten (List.forall_mem_nil _) (List.forall_mem_nil _)
  simp

end Records

end Json

/-! ## Names -/

theorem Scalar.readsBack : Json.ReadsBack (fun s => Json.SpelledTag (name s)) Scalar.ofJson? := by
  intro s j h
  unfold ofJson?
  rw [h.tag?_eq]
  exact ofName?_name s

theorem Backend.readsBack : Json.ReadsBack (fun b => Json.SpelledTag (tag b)) Backend.ofJson? := by
  intro b j h
  unfold ofJson?
  rw [h.tag?_eq]
  exact ofTag?_tag b

/-! ## Devices -/

namespace Device

/-- Nothing is known of what is written under the given key. -/
def Lacks (d : Device) : String → Prop
  | "index" => d.index = none
  | _ => False

/-- What may stand under the given key. -/
def SpelledAt (d : Device) : String → Json → Prop
  | "kind", j => Json.SpelledTag d.backend.tag j
  | "index", j => Json.SpelledKnown (Json.SpelledAs (.ofNat ·.toNat)) d.index j
  | _, _ => False

/-- The documents that spell a device. -/
def Spelled (d : Device) (j : Json) : Prop := Json.Spells keys 1 d.SpelledAt d.Lacks j

/-- **A device is read back from every spelling of it.** -/
theorem readsBack : Json.ReadsBack Spelled ofJson? := by
  intro d j h
  obtain ⟨ms, hrecord, hms⟩ := h.exists_finds
  have hbackend : Json.member? ms "kind" Backend.ofJson? = some d.backend :=
    (hms "kind" (by simp [keys])).member? (Backend.readsBack d.backend) id
  have hindex : Json.memberD ms "index" none (Json.known? Json.word16?) = some d.index :=
    (hms "index" (by simp [keys])).memberD (Json.readsBack_word16.known (fun _ => nofun) d.index) id
  unfold ofJson?
  rw [hrecord]
  simp [hbackend, hindex]

theorem spelled_toJson (d : Device) : d.Spelled d.toJson := by
  refine Json.spells_written rfl (by decide) ?_
  have hindex : d.SpelledAt "index" (.ofKnown (.ofNat ·.toNat) d.index) :=
    Json.spelledKnown_ofKnown Json.spelledAs_write d.index
  exact List.forall_mem_cons.2 ⟨.inl rfl, List.forall_mem_singleton.2 hindex⟩

end Device

/-! ## Shapes -/

namespace Shape

/-- Nothing is known of what is written under the given key. -/
def Lacks (s : Shape) : String → Prop
  | "dims" => s.dims = none
  | _ => False

/-- What may stand under the given key. -/
def SpelledAt (s : Shape) : String → Json → Prop
  | "dims", j =>
    Json.SpelledKnown (Json.SpelledList (Json.SpelledKnown (Json.SpelledAs (.ofNat ·.toNat))))
      s.dims j
  | _, _ => False

/-- The documents that spell a shape. -/
def Spelled (s : Shape) (j : Json) : Prop := Json.Spells keys 1 s.SpelledAt s.Lacks j

/-- **A shape is read back from every spelling of it.** -/
theorem readsBack : Json.ReadsBack Spelled ofJson? := by
  intro s j h
  obtain ⟨ms, hrecord, hms⟩ := h.exists_finds
  have hextents := (Json.readsBack_word64.known fun _ => nofun).list
  have hdims : Json.memberD ms "dims" none
      (Json.known? (Json.list? (Json.known? Json.word64?))) = some s.dims :=
    (hms "dims" (by simp [keys])).memberD (hextents.known (fun _ => nofun) s.dims) id
  unfold ofJson?
  rw [hrecord]
  simp [hdims]

theorem spelled_toJson (s : Shape) : s.Spelled s.toJson := by
  refine Json.spells_written rfl (by decide) ?_
  have hdims : s.SpelledAt "dims" (.ofKnown (.ofList (.ofKnown (.ofNat ·.toNat))) s.dims) :=
    Json.spelledKnown_ofKnown
      (Json.spelledList_ofList (Json.spelledKnown_ofKnown Json.spelledAs_write)) s.dims
  exact List.forall_mem_singleton.2 hdims

end Shape

/-! ## Tensor facts -/

namespace TensorFacts

/-- Nothing is known of the fact that is written under the given key. -/
def Lacks (t : TensorFacts) : String → Prop
  | "scalar_type" => t.scalar = none
  | "device" => t.device = none
  | "sizes" => t.sizes = .unknown
  | "strides" => t.strides = .unknown
  | "requires_grad" => t.requiresGrad = none
  | "undefined" => t.undefined = none
  | _ => False

/-- What may stand under the given key. -/
def SpelledAt (t : TensorFacts) : String → Json → Prop
  | "scalar_type", j => Json.SpelledKnown (fun s => Json.SpelledTag (Scalar.name s)) t.scalar j
  | "device", j => Json.SpelledKnown Device.Spelled t.device j
  | "sizes", j => t.sizes.Spelled j
  | "strides", j => t.strides.Spelled j
  | "requires_grad", j => Json.SpelledKnown (Json.SpelledAs .bool) t.requiresGrad j
  | "undefined", j => Json.SpelledKnown (Json.SpelledAs .bool) t.undefined j
  | _, _ => False

/-- The documents that spell a description. -/
def Spelled (t : TensorFacts) (j : Json) : Prop := Json.Spells keys 0 t.SpelledAt t.Lacks j

/-- **A description is read back from every spelling of it**, with a device and shapes that may
themselves be spelled in any way. -/
theorem readsBack : Json.ReadsBack Spelled ofJson? := by
  intro t j h
  obtain ⟨ms, hrecord, hms⟩ := h.exists_finds
  have hscalar : Json.memberD ms "scalar_type" none (Json.known? Scalar.ofJson?) = some t.scalar :=
    (hms "scalar_type" (by simp [keys])).memberD
      (Scalar.readsBack.known (fun _ => Json.not_spelledTag_null) t.scalar) id
  have hdevice : Json.memberD ms "device" none (Json.known? Device.ofJson?) = some t.device :=
    (hms "device" (by simp [keys])).memberD
      (Device.readsBack.known (fun _ => Json.not_spells_null) t.device) id
  have hsizes : Json.memberD ms "sizes" .unknown Shape.ofJson? = some t.sizes :=
    (hms "sizes" (by simp [keys])).memberD (Shape.readsBack t.sizes) id
  have hstrides : Json.memberD ms "strides" .unknown Shape.ofJson? = some t.strides :=
    (hms "strides" (by simp [keys])).memberD (Shape.readsBack t.strides) id
  have hgrad :
      Json.memberD ms "requires_grad" none (Json.known? Json.bool?) = some t.requiresGrad :=
    (hms "requires_grad" (by simp [keys])).memberD
      (Json.readsBack_bool.known (fun _ => nofun) t.requiresGrad) id
  have hundefined : Json.memberD ms "undefined" none (Json.known? Json.bool?) = some t.undefined :=
    (hms "undefined" (by simp [keys])).memberD
      (Json.readsBack_bool.known (fun _ => nofun) t.undefined) id
  unfold ofJson?
  rw [hrecord]
  simp [hscalar, hdevice, hsizes, hstrides, hgrad, hundefined]

example :
    ofJson? (.arr [.obj [("Float", .null)], .arr [.str "Cuda"], .arr [.arr [.int 2, .null]]]) =
      some ⟨some .float, some ⟨.cuda, none⟩, .ofDims [some 2, none], .unknown, none, none⟩ := by
  decide

theorem map_fst_members (t : TensorFacts) : t.toJson.members.map Prod.fst = keys := rfl

theorem nodup_keys : keys.Nodup := by decide

/-- Every fact is written in one of its spellings. -/
theorem spelledAt_of_mem_members (t : TensorFacts) :
    ∀ m ∈ t.toJson.members, t.SpelledAt m.1 m.2 := by
  have hscalar : t.SpelledAt "scalar_type" (.ofKnown Scalar.toJson t.scalar) :=
    Json.spelledKnown_ofKnown (fun _ => .inl rfl) t.scalar
  have hdevice : t.SpelledAt "device" (.ofKnown Device.toJson t.device) :=
    Json.spelledKnown_ofKnown Device.spelled_toJson t.device
  have hsizes : t.SpelledAt "sizes" t.sizes.toJson := t.sizes.spelled_toJson
  have hstrides : t.SpelledAt "strides" t.strides.toJson := t.strides.spelled_toJson
  have hgrad : t.SpelledAt "requires_grad" (.ofKnown .bool t.requiresGrad) :=
    Json.spelledKnown_ofKnown Json.spelledAs_write t.requiresGrad
  have hundefined : t.SpelledAt "undefined" (.ofKnown .bool t.undefined) :=
    Json.spelledKnown_ofKnown Json.spelledAs_write t.undefined
  simp only [toJson, Json.members, List.forall_mem_cons]
  exact ⟨hscalar, hdevice, hsizes, hstrides, hgrad, hundefined, List.forall_mem_nil _⟩

/-- **Tensor facts are read back from every spelling of them.** From the object that is written;
from that object when keys of unknown facts are left out, foreign members come in, and the members
stand in any order; and from the array of the six values in the order of the keys, when it ends
early, before facts that are all unknown. -/
theorem facts_read_back (t : TensorFacts) :
    ofJson? t.toJson = some t ∧
    (∀ (omitted : List String) (foreign ms : List (String × Json)),
      (∀ key ∈ omitted, t.Lacks key) → (∀ m ∈ foreign, m.1 ∉ keys) →
      ms.Perm (t.toJson.members.filter (·.1 ∉ omitted) ++ foreign) →
      ofJson? (.obj ms) = some t) ∧
    ∀ n, (∀ key ∈ keys.drop n, t.Lacks key) →
      ofJson? (.arr ((t.toJson.members.map Prod.snd).take n)) = some t := by
  have hkeys := t.map_fst_members
  have hwritten := t.spelledAt_of_mem_members
  refine ⟨?_, fun omitted foreign ms homitted hforeign hperm => ?_, fun n hcut => ?_⟩
  · apply readsBack
    exact Json.spells_written hkeys nodup_keys hwritten
  · apply readsBack
    exact Json.spells_of_perm hkeys nodup_keys hwritten homitted hforeign hperm
  · apply readsBack
    exact Json.spells_take hkeys hwritten (Nat.zero_le n) (Nat.zero_le _) hcut

/-- The largest ordinal and the largest extent, beside an extent that is unknown. The strides and
the two flags are unknown, so the object may leave them out, here behind a foreign member and in the
opposite order, and the array may end before them. -/
theorem facts_read_back_largest :
    let t : TensorFacts :=
      ⟨some .float, some (.cuda 65535), .ofDims [some 18446744073709551615, none], .unknown, none,
        none⟩
    let device : Json := .obj [("kind", .str "Cuda"), ("index", .int 65535)]
    let sizes : Json := .obj [("dims", .arr [.int 18446744073709551615, .null])]
    ofJson? t.toJson = some t ∧
      ofJson? (.obj [("layout", .bool true), ("sizes", sizes), ("device", device),
        ("scalar_type", .str "Float")]) = some t ∧
      ofJson? (.arr [.str "Float", device, sizes]) = some t := by
  intro t device sizes
  obtain ⟨hobject, hmembers, harray⟩ := facts_read_back t
  have hlacks : ∀ key ∈ ["strides", "requires_grad", "undefined"], t.Lacks key :=
    List.forall_mem_cons.2 ⟨rfl, List.forall_mem_cons.2 ⟨rfl, List.forall_mem_singleton.2 rfl⟩⟩
  have hkept : t.toJson.members.filter (·.1 ∉ ["strides", "requires_grad", "undefined"]) =
      [("scalar_type", .str "Float"), ("device", device), ("sizes", sizes)] := rfl
  refine ⟨hobject, ?_, harray 3 hlacks⟩
  apply hmembers _ [("layout", .bool true)] _ hlacks (by simp [keys])
  rw [hkept]
  exact List.reverse_perm [("scalar_type", .str "Float"), ("device", device), ("sizes", sizes),
    ("layout", .bool true)]

end TensorFacts

end TensorTyping
