import Mathlib.Data.List.Chain
import Mathlib.Logic.Relation
import ProtoBundle.Composition.Build
import ProtoBundle.Proofs.Schema.Faults

namespace ProtoBundle

theorem FileTree.absolute_normal (t : FileTree) (cs : List Char) :
    t.absolute (String.ofList (Path.normal cs)) = String.ofList (Path.normal cs) := by
  rw [absolute, String.toList_ofList, Path.absolute_normal]

theorem FileTree.absolute_absolute (t : FileTree) (path : String) :
    t.absolute (t.absolute path) = t.absolute path := t.absolute_normal _

theorem FileTree.read_of_null {t : FileTree} {path : String} (h : '\x00' ∈ path.toList) :
    t.read path = .error (.embeddedNull path) := by
  rw [read, bytes, if_pos h]

namespace Composition

theorem absolute_resolve (other t : FileTree) (includes : List String) (base ref : String) :
    other.absolute (resolve t includes base ref) = resolve t includes base ref := by
  obtain ⟨cs, hcs⟩ := eq_normal_of_mem_candidates (mem_candidates_resolve t includes base ref)
  rw [hcs, other.absolute_normal]

theorem resolve_first (t : FileTree) (includes : List String) (base ref : String) :
    (∃ front back, candidates t includes base ref = front ++ resolve t includes base ref :: back ∧
      (∀ p ∈ front, t.isPresent p = false) ∧ t.isPresent (resolve t includes base ref) = true) ∨
    (∀ p ∈ candidates t includes base ref, t.isPresent p = false) ∧
      resolve t includes base ref = candidate t base ref := by
  unfold resolve
  cases hf : (candidates t includes base ref).find? t.isPresent with
  | none => exact .inr ⟨by simpa using hf, rfl⟩
  | some path =>
      obtain ⟨hp, front, back, hs, hfront⟩ := List.find?_eq_some_iff_append.mp hf
      exact .inl ⟨front, back, hs, by simpa using hfront, hp⟩

variable {t : FileTree} {includes : List String}

def target (t : FileTree) (includes : List String) (importer ref : String) : String :=
  resolve t includes (String.ofList (Path.directory importer.toList)) ref

def Declares (t : FileTree) (path ref : String) : Prop :=
  ∃ schema, load t path = .ok schema ∧ ref ∈ schema.references ∧ isInlined ref = true

def Imports (t : FileTree) (includes : List String) (path other : String) : Prop :=
  ∃ ref, Declares t path ref ∧ target t includes path ref = other

def Reachable (t : FileTree) (includes : List String) (root path : String) : Prop :=
  Relation.ReflTransGen (Imports t includes) root path

theorem declares_iff {path ref : String} {schema : Schema} (hl : load t path = .ok schema) :
    Declares t path ref ↔ ref ∈ schema.references ∧ isInlined ref = true := by
  constructor
  · rintro ⟨other, ho, hr⟩
    cases hl.symm.trans ho
    exact hr
  · exact fun hr => ⟨schema, hl, hr⟩

theorem declares_of_load {path : String} {schema : Schema} (hl : load t path = .ok schema) :
    ∀ ref ∈ schema.references, isInlined ref = true → Declares t path ref :=
  fun _ hm hv => (declares_iff hl).mpr ⟨hm, hv⟩

theorem absolute_target (importer ref : String) :
    t.absolute (target t includes importer ref) = target t includes importer ref := absolute_resolve t t includes _ ref

theorem absolute_of_reachable {root path : String} (hr : t.absolute root = root)
    (h : Reachable t includes root path) : t.absolute path = path := by
  induction h with
  | refl => exact hr
  | tail _ he _ =>
      obtain ⟨ref, -, rfl⟩ := he
      exact absolute_target _ ref

theorem target_of_absent {importer ref : String} (h : t.isPresent (target t includes importer ref) = false) :
    (∀ path ∈ candidates t includes (String.ofList (Path.directory importer.toList)) ref,
      t.isPresent path = false) ∧
    target t includes importer ref = candidate t (String.ofList (Path.directory importer.toList)) ref := by
  refine (resolve_first t includes _ ref).resolve_left ?_
  rintro ⟨front, back, -, -, hp⟩
  exact absurd (h.symm.trans hp) Bool.false_ne_true

theorem load_eq_bind (t : FileTree) (path : String) :
    load t path = (t.read (t.absolute path)).bind (Schema.ofText (some (t.absolute path))) := by
  unfold load
  cases t.read (t.absolute path) <;> rfl

theorem file_of_load {path : String} {schema : Schema} (h : load t path = .ok schema) :
    schema.file = some (t.absolute path) := by
  rw [load_eq_bind] at h
  cases hr : t.read (t.absolute path) with
  | error e =>
      rw [hr] at h
      cases h
  | ok text =>
      rw [hr] at h
      exact Schema.file_of_ofText h

theorem not_null_of_isPresent {path : String} (h : t.isPresent path = true) : '\x00' ∉ path.toList := by
  intro hz
  rw [FileTree.isPresent, FileTree.lookup, if_pos (.inr hz)] at h
  cases h

theorem isPresent_of_read {path text : String} (h : t.read path = .ok text) : t.isPresent path = true := by
  by_cases hz : '\x00' ∈ path.toList
  · rw [FileTree.read_of_null hz] at h
    cases h
  · rw [FileTree.read, FileTree.bytes, if_neg hz] at h
    unfold FileTree.isPresent
    cases hl : t.lookup path.toList with
    | missing => rw [hl] at h; cases h
    | throughFile => rw [hl] at h; cases h
    | found node => rfl

theorem isPresent_of_load {path : String} {schema : Schema} (h : load t path = .ok schema) :
    t.isPresent (t.absolute path) = true := by
  rw [load_eq_bind] at h
  cases hr : t.read (t.absolute path) with
  | error e =>
      rw [hr] at h
      cases h
  | ok text => exact isPresent_of_read hr

def IsLoadingFault (path : String) : Failure → Prop
  | .malformed _ file _ _ => file = some path
  | .literalTooLong _ _ => True
  | .missingFile place => place = path
  | .notDirectory place => place = path
  | .isDirectory place => place = path
  | .embeddedNull place => place = path ∧ '\x00' ∈ path.toList
  | _ => False

theorem raises_read (t : FileTree) (path : String) : Raises (IsLoadingFault path) (t.read path) := by
  intro e h
  by_cases hz : '\x00' ∈ path.toList
  · rw [FileTree.read_of_null hz] at h
    cases h
    exact ⟨rfl, hz⟩
  rw [FileTree.read, FileTree.bytes, if_neg hz] at h
  cases hl : t.lookup path.toList with
  | missing => rw [hl] at h; cases h; rfl
  | throughFile => rw [hl] at h; cases h; rfl
  | found node =>
      rw [hl] at h
      cases node with
      | directory => cases h; rfl
      | file bytes =>
          dsimp only at h
          split at h
          · cases h
          · cases h
            rfl

theorem raises_load (t : FileTree) (path : String) : Raises (IsLoadingFault (t.absolute path)) (load t path) := by
  intro e h
  rw [load_eq_bind] at h
  cases hr : t.read (t.absolute path) with
  | error d =>
      rw [hr] at h
      cases h
      exact raises_read t _ e hr
  | ok text =>
      rw [hr] at h
      have hf := Schema.raises_ofText _ text e h
      cases e <;> first | exact hf | exact hf.elim

end Composition

end ProtoBundle
