import Mathlib.Data.List.Infix
import ProtoBundle.Proofs.Script.Execution

/-!
Paths through a store, and what writing one member does to them. A member that is free is written without hiding
anything that is inherited, so that a path to something that is there leads to it still, unless it goes through the very
member that is written.
-/

namespace ProtoBundle.Script.Store

variable {s t u : Store} {path : List String} {front back : List Nat} {id holder other : Nat} {name key : String}
  {v x : Value} {m : Member}

/-- The name is on the path, where it is looked up in this object. -/
def Names (s : Store) (path : List String) (id : Nat) (name : String) : Prop :=
  ∃ front back, path = front ++ name :: back ∧ s.read front = some (.object id)

/-- Something that is there is found on the path under this name, as a member that this object holds itself. -/
def Uses (s : Store) (path : List String) (id : Nat) (name : String) : Prop :=
  ∃ front back other v writable, path = front ++ name :: back ∧ s.read front = some (.object other) ∧
    s.holder? other name = some id ∧ s.member? id name = some (.data v writable) ∧ v.isAbsent = false

def Ends (s : Store) (path : List String) (id : Nat) (name : String) : Prop :=
  ∃ front, path = front ++ [name] ∧ s.read front = some (.object id)

theorem Names.mem (h : s.Names path id name) : name ∈ path := by
  obtain ⟨front, back, rfl, -⟩ := h
  exact List.mem_append_right _ List.mem_cons_self

theorem Uses.mem (h : s.Uses path id name) : name ∈ path := by
  obtain ⟨front, back, -, -, -, rfl, -⟩ := h
  exact List.mem_append_right _ List.mem_cons_self

/-- Every object that a store refers to is there, and so are the first two, of which the second inherits nothing. Behind
each object, a chain goes on with the chain of that object. -/
structure IsSound (s : Store) : Prop where
  known : 1 < s.size
  held : ∀ id name other writable, s.member? id name = some (.data (.object other) writable) → other < s.size
  inherited : ∀ id, ∀ p ∈ s.chain id, p < s.size
  root : s.chain 1 = []
  chains : ∀ id p back, p :: back <:+ s.chain id → s.chain p = back

theorem IsSound.lt_size (hs : s.IsSound) (hid : id < s.size) : ∀ o ∈ id :: s.chain id, o < s.size :=
  List.forall_mem_cons.mpr ⟨hid, hs.inherited id⟩

theorem IsSound.put (hs : s.IsSound) (hid : id < s.size) (hv : ∀ other, v = .object other → other < s.size)
    (name : String) : (s.put id name v).IsSound where
  known := by
    rw [size_put]
    exact hs.known
  held other key new writable hm := by
    rw [member?_put hid] at hm
    rw [size_put]
    split at hm
    · cases hm
      exact hv new rfl
    · exact hs.held other key new writable hm
  inherited := by simpa only [chain_put, size_put] using hs.inherited
  root := by
    rw [chain_put]
    exact hs.root
  chains := by simpa only [chain_put] using hs.chains

theorem IsSound.allocate (hs : s.IsSound) : s.allocate.2.IsSound := by
  have hle : s.size ≤ s.allocate.2.size := by simp
  have hroot : s.allocate.2.chain 1 = [] := by rw [chain_of_extends (extends_allocate s) hs.known, hs.root]
  constructor
  case known => exact hs.known.trans_le hle
  case root => exact hroot
  case held =>
    intro other key new writable hm
    rw [member?_allocate] at hm
    exact (hs.held other key new writable hm).trans_le hle
  case inherited =>
    intro other p hp
    rcases chain_allocate_cases s other with ho | ho
    · rw [ho] at hp
      exact (hs.inherited other p hp).trans_le hle
    · rw [ho, List.mem_singleton] at hp
      rw [hp]
      exact hs.known.trans_le hle
  case chains =>
    intro other p back hp
    rcases chain_allocate_cases s other with ho | ho
    · rw [ho] at hp
      rw [chain_of_extends (extends_allocate s) (hs.inherited other p (hp.subset List.mem_cons_self))]
      exact hs.chains other p back hp
    · rw [ho] at hp
      rcases List.suffix_cons_iff.mp hp with heq | hnil
      · cases heq
        exact hroot
      · cases List.suffix_nil.mp hnil

/-- The member can be written: it is the object's own, or nothing is found under the name and the object can take up
something new. -/
def isFree (s : Store) (id : Nat) (name : String) : Bool :=
  match s.member? id name with
  | some (.data _ writable) => writable
  | some .accessor => false
  | none => s.isExtensible id && (s.lookup id name).isNone

theorem isFree_iff : s.isFree id name = true ↔
    (∃ v, s.member? id name = some (.data v true)) ∨ s.isExtensible id = true ∧ s.lookup id name = none := by
  unfold isFree
  cases hm : s.member? id name with
  | none => simp
  | some m =>
      have hl : s.lookup id name ≠ none := by
        rw [lookup_of_member? hm]
        exact Option.some_ne_none _
      cases m with
      | data v writable => simp [hl]
      | accessor => simp [hl]

structure Writes (id : Nat) (name : String) (v : Value) (s t : Store) : Prop where
  size : s.size ≤ t.size
  chain : ∀ other, other < s.size → t.chain other = s.chain other
  member : ∀ other key, other < s.size →
    t.member? other key = if other = id ∧ key = name then some (.data v true) else s.member? other key

theorem writes_put (h : s.objects <+: t.objects) (hid : id < s.size) (v : Value) :
    Writes id name v s (t.put id name v) where
  size := by
    rw [size_put]
    exact h.length_le
  chain other ho := by rw [chain_put, chain_of_extends h ho]
  member other key ho := by rw [member?_put (hid.trans_le h.length_le), member?_of_extends h ho]

section Reads

theorem lt_size_of_read (hs : s.IsSound) (h : s.read path = some (.object id)) : id < s.size := by
  rcases List.eq_nil_or_concat' path with rfl | ⟨front, name, rfl⟩
  · cases h
    exact Nat.zero_lt_of_lt hs.known
  · obtain ⟨-, holder, writable, -, -, hm⟩ := exists_of_read_concat h rfl
    exact hs.held holder name id writable hm

theorem IsSound.mem_chain (hs : s.IsSound) (h : other :: s.chain other = front ++ holder :: back) {o : Nat}
    (ho : o ∈ front) : holder ∈ s.chain o := by
  obtain ⟨first, last, rfl⟩ := List.append_of_mem ho
  rw [List.append_assoc, List.cons_append] at h
  cases first with
  | nil =>
      obtain ⟨rfl, htail⟩ := List.cons.inj h
      rw [htail]
      exact List.mem_append_right _ List.mem_cons_self
  | cons f first =>
      have hsuffix : o :: (last ++ holder :: back) <:+ s.chain other := ⟨first, (List.cons.inj h).2.symm⟩
      rw [hs.chains other o _ hsuffix]
      exact List.mem_append_right _ List.mem_cons_self

/-- What is found stays where it is: a free member does not stand in front of it. -/
theorem Writes.holder? (h : Writes id name v s t) (hs : s.IsSound) (hf : s.isFree id name = true)
    (ho : other < s.size) (hh : s.holder? other key = some holder) : t.holder? other key = some holder := by
  obtain ⟨front, back, hchain, hm, hfront⟩ := holder?_eq_some_iff.mp hh
  have hlt := hs.lt_size ho
  rw [hchain] at hlt
  refine holder?_eq_some_iff.mpr ⟨front, back, by rw [h.chain other ho, hchain], ?_, fun o hof => ?_⟩
  · rw [h.member holder key (hlt holder (by simp))]
    split
    · rfl
    · exact hm
  · rw [h.member o key (hlt o (List.mem_append_left _ hof)), if_neg]
    · exact hfront o hof
    rintro ⟨rfl, rfl⟩
    rcases isFree_iff.mp hf with ⟨old, hold⟩ | ⟨-, hl⟩
    · rw [hfront o hof] at hold
      cases hold
    · rw [lookup_eq_none_iff.mp hl holder (List.mem_cons_of_mem _ (hs.mem_chain hchain hof))] at hm
      cases hm

theorem Writes.read (h : Writes id name v s t) (hs : s.IsSound) (hf : s.isFree id name = true)
    (hr : s.read path = some x) (hx : x.isAbsent = false) (hn : ¬s.Uses path id name) : t.read path = some x := by
  induction path using List.reverseRecOn generalizing x with
  | nil => exact hr
  | append_singleton front last ih =>
      obtain ⟨other, holder, writable, hfront, hh, hm⟩ := exists_of_read_concat hr hx
      have ho := lt_size_of_read hs hfront
      have hread : t.read front = some (.object other) := by
        refine ih hfront rfl ?_
        rintro ⟨front', back, o, w, writable', rfl, hu⟩
        exact hn ⟨front', back ++ [last], o, w, writable', by simp, hu⟩
      have hmember : t.member? holder last = some (.data x writable) := by
        rw [h.member holder last (lt_size_of_member? hm), if_neg, hm]
        rintro ⟨rfl, rfl⟩
        exact hn ⟨front, [], other, x, writable, rfl, hfront, hh, hm, hx⟩
      rw [read_concat_of_object hread,
        get_of_lookup (lookup_eq_some_iff.mpr ⟨holder, h.holder? hs hf ho hh, hmember⟩)]

theorem Writes.read_concat (h : Writes id name v s t) (hid : id < s.size) (hr : t.read path = some (.object id)) :
    t.read (path ++ [name]) = some v := by
  have hm : t.member? id name = some (.data v true) := by rw [h.member id name hid, if_pos ⟨rfl, rfl⟩]
  rw [read_concat_of_object hr, get_of_lookup (lookup_of_member? hm)]

theorem not_uses_of_absent (h : ∀ w writable, s.member? id name = some (.data w writable) → w.isAbsent = true) :
    ¬s.Uses path id name := by
  rintro ⟨-, -, -, w, writable, -, -, -, hm, hw⟩
  rw [h w writable hm] at hw
  cases hw

end Reads

end ProtoBundle.Script.Store
