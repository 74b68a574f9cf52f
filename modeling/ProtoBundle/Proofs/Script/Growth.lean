import ProtoBundle.Proofs.Script.Paths

/-!
Stores that grow along a path. As far as the path leads to objects, nothing changes. Where it first leads to nothing, an
object is made, and from there on every name is looked up in the newest object, which holds nothing yet.
-/

namespace ProtoBundle.Script.Store

variable {s t u : Store} {path rest done : List String} {id new : Nat} {name : String} {v : Value}

/-- Where a path can be bound: up to its end, it leads to objects or to nothing. -/
structure Admits (s : Store) (path : List String) : Prop where
  sound : s.IsSound
  prefixes : ∀ front, front <+: path.dropLast → ∀ v ∈ s.read front, v.isAbsent = true ∨ v.isObject = true

/-- Nothing stands in the way of the script: each member on the path is free or, short of the end, an object that is
held; where the path leads to no object, its names are not inherited by new objects, and what these inherit from is not
on the path. -/
structure Clear (s : Store) (path : List String) : Prop where
  free : ∀ front name back id, path = front ++ name :: back → s.read front = some (.object id) →
    s.isFree id name = true ∨ back ≠ [] ∧ (s.member? id name).any Member.isObject = true
  bare : ∀ front name back, path = front ++ name :: back → (∀ id, s.read front ≠ some (.object id)) →
    s.member? 1 name = none
  apart : ∀ front, front <+: path.dropLast → s.read front ≠ some (.object 1)

section Checks

theorem forall_split_cons {α : Type} {P : List α → α → List α → Prop} {x : α} {xs : List α} :
    (∀ front y back, x :: xs = front ++ y :: back → P front y back) ↔
      P [] x xs ∧ ∀ front y back, xs = front ++ y :: back → P (x :: front) y back := by
  constructor
  · intro h
    exact ⟨h [] x xs rfl, fun front y back hsplit => h (x :: front) y back (by rw [hsplit, List.cons_append])⟩
  · rintro ⟨hfirst, hrest⟩ (_ | ⟨z, front⟩) y back hsplit
    · cases hsplit
      exact hfirst
    · obtain ⟨rfl, htail⟩ := List.cons.inj hsplit
      exact hrest front y back htail

instance decidableSplits {α : Type} (P : List α → α → List α → Prop) [∀ front y back, Decidable (P front y back)] :
    ∀ xs : List α, Decidable (∀ front y back, xs = front ++ y :: back → P front y back)
  | [] => isTrue (by simp)
  | x :: xs =>
      have := decidableSplits (fun front => P (x :: front)) xs
      decidable_of_iff _ forall_split_cons.symm

def isClearAt (s : Store) (front : List String) (name : String) (back : List String) : Bool :=
  match s.read front with
  | some (.object id) => s.isFree id name || !back.isEmpty && (s.member? id name).any Member.isObject
  | _ => (s.member? 1 name).isNone

theorem clear_iff : s.Clear path ↔
    (∀ front name back, path = front ++ name :: back → s.isClearAt front name back = true) ∧
      ∀ front ∈ path.dropLast.inits, s.read front ≠ some (.object 1) := by
  constructor
  · rintro ⟨hfree, hbare, hapart⟩
    refine ⟨fun front name back hpath => ?_, fun front hf => hapart front ((List.mem_inits _ _).mp hf)⟩
    unfold isClearAt
    split
    · rename_i id hr
      simpa using hfree front name back id hpath hr
    · rename_i hr
      simpa using hbare front name back hpath hr
  · rintro ⟨hclear, hapart⟩
    constructor
    case free =>
      intro front name back id hpath hr
      have h := hclear front name back hpath
      rw [isClearAt, hr] at h
      simpa using h
    case bare =>
      intro front name back hpath hr
      have h := hclear front name back hpath
      unfold isClearAt at h
      split at h
      · rename_i id hid
        exact absurd hid (hr id)
      · simpa using h
    case apart => exact fun front hf => hapart front ((List.mem_inits _ _).mpr hf)

instance (s : Store) (path : List String) : Decidable (s.Clear path) := decidable_of_iff _ clear_iff.symm

end Checks

section Making

def make (s : Store) (id : Nat) (name : String) : Store := s.allocate.2.put id name (.object s.size)

theorem writes_make (hid : id < s.size) : Writes id name (.object s.size) s (s.make id name) :=
  writes_put (extends_allocate s) hid _

theorem chain_make (s : Store) (id : Nat) (name : String) : (s.make id name).chain s.size = [1] := by
  rw [make, chain_put, chain_allocate]

theorem isExtensible_make (s : Store) (id : Nat) (name : String) : (s.make id name).isExtensible s.size = true := by
  rw [make, isExtensible_put, isExtensible_allocate]

theorem member?_make (hid : id < s.size) (key : String) : (s.make id name).member? s.size key = none := by
  rw [make, member?_put (by simp; omega), if_neg, member?_allocate, member?_eq_none le_rfl]
  rintro ⟨rfl, -⟩
  exact Nat.lt_irrefl _ hid

theorem IsSound.make (hs : s.IsSound) (hid : id < s.size) (name : String) : (s.make id name).IsSound := by
  have hlt : id < s.allocate.2.size := by simp; omega
  refine hs.allocate.put hlt (fun other ho => ?_) name
  cases ho
  simp

end Making

/-- A store in which objects have been made along a path. The newest one stands where the path has got to. -/
structure Made (s : Store) (path done : List String) (t : Store) (id : Nat) : Prop where
  sound : t.IsSound
  leads : t.read done = some (.object id)
  new : s.size ≤ id
  empty : ∀ key, t.member? id key = none
  chain : t.chain id = [1]
  extensible : t.isExtensible id = true
  lost : ∀ other, s.read done ≠ some (.object other)
  kept : ∀ front v, s.read front = some v → v.isAbsent = false → t.read front = some v
  old : ∀ other key, other < s.size →
    t.member? other key = s.member? other key ∨ s.Names path other key ∧ (t.member? other key).isSome = true

theorem Made.isFree (g : Made s path done t id) (hs : s.Admits path) (hc : s.Clear path)
    (hpath : path = done ++ name :: rest) : t.isFree id name = true := by
  refine isFree_iff.mpr (.inr ⟨g.extensible, lookup_eq_none_iff.mpr ?_⟩)
  rw [g.chain]
  refine List.forall_mem_cons.mpr ⟨g.empty name, List.forall_mem_singleton.mpr ?_⟩
  rcases g.old 1 name hs.sound.known with hold | ⟨⟨front, back, hfront, hread⟩, -⟩
  · rw [hold]
    exact hc.bare done name rest hpath g.lost
  · refine absurd hread (hc.apart front ?_)
    rw [hfront, List.dropLast_append_of_ne_nil (List.cons_ne_nil _ _)]
    exact List.prefix_append _ _

theorem Made.next (g : Made s path done t id) (hs : s.Admits path) (hc : s.Clear path)
    (hpath : path = done ++ name :: rest) : Made s path (done ++ [name]) (t.make id name) t.size := by
  have hid := lt_size_of_read g.sound g.leads
  have hw : Writes id name (.object t.size) t (t.make id name) := writes_make hid
  have ha : ∀ v writable, t.member? id name = some (.data v writable) → v.isAbsent = true := by simp [g.empty]
  have hkept : ∀ front v, t.read front = some v → v.isAbsent = false → (t.make id name).read front = some v :=
    fun front v hr hv => hw.read g.sound (g.isFree hs hc hpath) hr hv (not_uses_of_absent ha)
  constructor
  case sound => exact g.sound.make hid name
  case leads => exact hw.read_concat hid (hkept done _ g.leads rfl)
  case new => exact g.new.trans hid.le
  case empty => exact member?_make hid
  case chain => exact chain_make t id name
  case extensible => exact isExtensible_make t id name
  case lost =>
    intro other hr
    obtain ⟨holder, -, -, hr', -⟩ := exists_of_read_concat hr rfl
    exact g.lost holder hr'
  case kept => exact fun front v hr hv => hkept front v (g.kept front v hr hv) hv
  case old =>
    intro other key ho
    -- the object that is written is a new one
    have hother : ¬(other = id ∧ key = name) := fun heq => absurd (heq.1 ▸ ho) (Nat.not_lt.mpr g.new)
    have hlt : other < t.size := ho.trans (g.new.trans_lt hid)
    rw [hw.member other key hlt, if_neg hother]
    exact g.old other key ho

/-- How far a script has come: the path leads to an object, and no object has been made on the way, or the newest one
is it. -/
inductive Reaches (s : Store) (path done : List String) : Store → Nat → Prop
  | known {id : Nat} (h : s.read done = some (.object id)) : Reaches s path done s id
  | made {t : Store} {id : Nat} (h : Made s path done t id) : Reaches s path done t id

namespace Reaches

variable (h : Reaches s path done t id)

include h

theorem leads : t.read done = some (.object id) := by
  cases h with
  | known hd => exact hd
  | made g => exact g.leads

theorem sound (hs : s.Admits path) : t.IsSound := by
  cases h with
  | known => exact hs.sound
  | made g => exact g.sound

theorem kept {front : List String} (hr : s.read front = some v) (hv : v.isAbsent = false) : t.read front = some v := by
  cases h with
  | known => exact hr
  | made g => exact g.kept front v hr hv

theorem isSome_member? {key : String} (hs : s.Admits path) (hk : (s.member? 0 key).isSome = true) :
    (t.member? 0 key).isSome = true := by
  cases h with
  | known => exact hk
  | made g =>
      rcases g.old 0 key (Nat.zero_lt_of_lt hs.sound.known) with hold | ⟨-, hsome⟩
      · rwa [hold]
      · exact hsome

end Reaches

end ProtoBundle.Script.Store
