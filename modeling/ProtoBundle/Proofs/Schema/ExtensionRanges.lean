import ProtoBundle.Proofs.Schema.Alongside
import ProtoBundle.Schema.Document

namespace ProtoBundle

open Source (Tree Lexeme)

/-- A single number is a range, and a range without an end goes up to the greatest number that a field can have. -/
inductive Message.DeclaresRange : Tree → Int × Int → Prop
  | single {number : Lexeme} {i : Int} (h : number.integer .idRange = .ok i) (settings : Tree) :
      DeclaresRange (.node .extensions [.node .idRange [.token .integer number, .absent], settings]) (i, i)
  | closed {first last : Lexeme} {i j : Int} (hf : first.integer .idRange = .ok i)
      (hl : last.integer .idRange = .ok j) (settings : Tree) :
      DeclaresRange (.node .extensions [.node .idRange [.token .integer first, .token .integer last], settings]) (i, j)
  | toMaximum {first : Lexeme} {i : Int} (h : first.integer .idRange = .ok i) (maximum : Lexeme) (settings : Tree) :
      DeclaresRange (.node .extensions [.node .idRange [.token .integer first, .token .maximum maximum], settings])
        (i, greatestFieldNumber)

def Message.Extends (m : Message) (number : Int) : Prop :=
  ∃ first last, m.extensions = some [first, last] ∧ first ≤ number ∧ number ≤ last

structure Message.KeepsLast (m : Message) (ranges : List (Int × Int)) : Prop where
  last : m.extensions = ranges.getLast?.map fun r => [r.1, r.2]
  document : ∃ members, m.document = .object members ∧
    Table.get? "extensions" members = ranges.getLast?.map fun r => numbers [r.1, r.2]

section Ranges

variable {m : Message} {ranges : List (Int × Int)}

theorem Message.document_extensions (m : Message) : ∃ members, m.document = .object members ∧
    Table.get? "extensions" members = m.extensions.map numbers := by
  obtain ⟨name, fields, enums, messages, options, oneofs, extensions⟩ := m
  refine ⟨_, by rw [Message.document], ?_⟩
  cases extensions <;> rfl

theorem Message.keepsLast_of_eq (h : m.extensions = ranges.getLast?.map fun r => [r.1, r.2]) : m.KeepsLast ranges := by
  obtain ⟨members, hm, he⟩ := m.document_extensions
  refine ⟨h, members, hm, ?_⟩
  rw [he, h, Option.map_map]
  rfl

theorem Message.KeepsLast.extends_iff (h : m.KeepsLast ranges) (number : Int) :
    m.Extends number ↔ ∃ r ∈ ranges.getLast?, r.1 ≤ number ∧ number ≤ r.2 := by
  rw [Message.Extends, h.last]
  constructor
  · rintro ⟨first, last, hr, hfirst, hlast⟩
    obtain ⟨r, hlast?, he⟩ := Option.map_eq_some_iff.mp hr
    cases he
    exact ⟨r, hlast?, hfirst, hlast⟩
  · rintro ⟨r, hr, hfirst, hlast⟩
    exact ⟨r.1, r.2, by rw [Option.mem_def.mp hr]; rfl, hfirst, hlast⟩

theorem Message.KeepsLast.forall_extends_iff (h : m.KeepsLast ranges) :
    (∀ r ∈ ranges, ∀ number, r.1 ≤ number → number ≤ r.2 → m.Extends number) ↔
      ∀ r ∈ ranges, r.1 ≤ r.2 → ∀ last ∈ ranges.getLast?, last.1 ≤ r.1 ∧ r.2 ≤ last.2 := by
  constructor
  · intro hall r hr hle last hlast
    have hbounds (number : Int) (hf : r.1 ≤ number) (hl : number ≤ r.2) : last.1 ≤ number ∧ number ≤ last.2 := by
      obtain ⟨last', hlast', hnumber⟩ := (h.extends_iff number).mp (hall r hr number hf hl)
      cases Option.mem_unique hlast hlast'
      exact hnumber
    exact ⟨(hbounds r.1 (Int.le_refl _) hle).1, (hbounds r.2 hle (Int.le_refl _)).2⟩
  · intro hall r hr number hf hl
    have hne : ranges ≠ [] := List.ne_nil_of_mem hr
    have hlast : ranges.getLast hne ∈ ranges.getLast? := List.getLast?_eq_some_getLast hne
    obtain ⟨hfirst, hend⟩ := hall r hr (Int.le_trans hf hl) _ hlast
    exact (h.extends_iff number).mpr ⟨_, hlast, Int.le_trans hfirst hf, Int.le_trans hl hend⟩

end Ranges

section Nodes

theorem Message.declaresRange_of_readRange {e : Source.Extensions} {range : List Int}
    (h : readRange e.range = .ok range) :
    ∃ r, range = [r.1, r.2] ∧ Message.DeclaresRange (Tree.ofExtensions e) r := by
  obtain ⟨⟨first, last⟩, settings⟩ := e
  obtain ⟨i, hi, h⟩ := exists_of_bind_eq_ok h
  obtain ⟨j, hj, h⟩ := exists_of_bind_eq_ok h
  cases h
  refine ⟨(i, j), rfl, ?_⟩
  match last, hj with
  | none, hj =>
      cases hj
      exact .single hi _
  | some (.number last), hj => exact .closed hi hj _
  | some (.maximum maximum), hj =>
      cases hj
      exact .toMaximum hi maximum _

def Message.Part.bounds? : Message.Part → Option (Int × Int)
  | .extensions [first, last] => some (first, last)
  | _ => none

theorem Message.declaresRange_bounds {item : Source.MessageItem} {p : Message.Part} (h : Message.Becomes item p) :
    List.Forall₂ Message.DeclaresRange ((Tree.ofMessageItem item).outermost [.message] [.extensions])
      p.bounds?.toList ∧ p.extensions? = p.bounds?.map fun r => [r.1, r.2] := by
  cases h with
  | extensions h =>
      obtain ⟨r, rfl, hr⟩ := Message.declaresRange_of_readRange h
      rw [Tree.ofMessageItem, Tree.ofExtensions, Tree.outermost_of_mem (by decide)]
      exact ⟨.cons hr .nil, rfl⟩
  | message h =>
      rw [Tree.ofMessageItem, Tree.outermost_of_container (by decide) (by decide)]
      exact ⟨.nil, rfl⟩
  | _ =>
      rw [(Tree.madeOf_ofMessageItem _).outermost_eq_nil rfl]
      exact ⟨.nil, rfl⟩

def Message.KeepsLastRange (t : Tree) (m : Message) : Prop :=
  ∃ ranges, List.Forall₂ DeclaresRange t.extensions ranges ∧ m.KeepsLast ranges ∧
    ((∀ r ∈ ranges, ∀ number, r.1 ≤ number → number ≤ r.2 → m.Extends number) ↔
      ∀ r ∈ ranges, r.1 ≤ r.2 → ∀ last ∈ ranges.getLast?, last.1 ≤ r.1 ∧ r.2 ≤ last.2)

theorem Message.keepsLastRange_ofParts : Message.FromParts Message.KeepsLastRange := by
  intro name items parts h
  have hp := Message.becomes_parts h
  have hranges : List.Forall₂ DeclaresRange (Tree.ofMessage ⟨name, items⟩).extensions
      (parts.filterMap Part.bounds?) := by
    rw [Tree.extensions, Tree.within_ofMessage]
    exact forall₂_selected hp fun item p h => (Message.declaresRange_bounds h).1
  have hkept : parts.filterMap Part.extensions? = (parts.filterMap Part.bounds?).map fun r => [r.1, r.2] := by
    rw [List.map_filterMap]
    refine List.filterMap_congr fun p hm => ?_
    obtain ⟨item, -, h⟩ := exists_mem_of_forall₂ hp hm
    exact (Message.declaresRange_bounds h).2
  have hlast : (Message.ofParts name.text parts).KeepsLast (parts.filterMap Part.bounds?) := by
    refine Message.keepsLast_of_eq ?_
    rw [Message.ofParts, hkept, List.getLast?_map]
  exact ⟨_, hranges, hlast, hlast.forall_extends_iff⟩

end Nodes

theorem Schema.keepsLastRange_ofText {file : Option String} {text : String} {s : Schema}
    (h : Schema.ofText file text = .ok s) :
    ∃ source, Source.parse text.toList = .ok source ∧
      List.Forall₂ (Message.Alongside Message.KeepsLastRange) (Tree.ofFile source).messages s.messages :=
  Schema.alongside_ofText Message.keepsLastRange_ofParts h

def twoRanges : String := "message M\x7bextensions 1 to 4;extensions 5 to 9;\x7d"

theorem Schema.keepsLastRange_ofText_twoRanges :
    ∃ s source m, Schema.ofText none twoRanges = .ok s ∧ Source.parse twoRanges.toList = .ok source ∧
      List.Forall₂ (Message.Alongside Message.KeepsLastRange) (Tree.ofFile source).messages s.messages ∧
      s.messages = [m] ∧ m.extensions = some [5, 9] ∧ ¬ m.Extends 1 := by
  have hread : (Schema.ofText none twoRanges).toOption.map (fun s => s.messages.map Message.extensions) =
      some [some [5, 9]] := by decide +kernel
  obtain ⟨s, hs, hv⟩ := Option.map_eq_some_iff.mp hread
  obtain ⟨m, hm, hextensions⟩ := List.map_eq_singleton_iff.mp hv
  obtain ⟨source, hsource, hkept⟩ := Schema.keepsLastRange_ofText (eq_ok_of_toOption hs)
  refine ⟨s, source, m, eq_ok_of_toOption hs, hsource, hkept, hm, hextensions, ?_⟩
  rintro ⟨first, last, he, hfirst, -⟩
  cases hextensions.symm.trans he
  exact absurd hfirst (by decide)

end ProtoBundle
