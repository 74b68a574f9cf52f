import ProtoBundle.Proofs.Json.Restoration
import ProtoBundle.Proofs.Number.Reading
import ProtoBundle.Proofs.Rendering.Blanks

/-!
The grammar of JSON texts in RFC 8259, which has no names for numbers that are not finite. The text of a document
conforms to it just when all of its floating-point numbers are finite.
-/

namespace ProtoBundle

open Text (isHexDigit)
open Number (Numeral AreDigits IsWhole IsFraction IsExponent)

namespace Json

def floats : Json → List Number.Binary64
  | .float x => [x]
  | .array items => ofItems items
  | .object members => ofMembers members
  | _ => []
where
  ofItems : List Json → List Number.Binary64
    | [] => []
    | j :: js => j.floats ++ ofItems js
  ofMembers : List (String × Json) → List Number.Binary64
    | [] => []
    | (_, j) :: ms => j.floats ++ ofMembers ms

def IsBlankRun (cs : List Char) : Prop := ∀ c ∈ cs, c = ' ' ∨ c = '\t' ∨ c = '\n' ∨ c = '\r'

def IsExponentPart (cs : List Char) : Prop :=
  cs = [] ∨ ∃ e sign ds, (e = 'e' ∨ e = 'E') ∧ (sign = [] ∨ sign = ['+'] ∨ sign = ['-']) ∧ AreDigits ds ∧
    cs = e :: (sign ++ ds)

inductive Category where
  | characters
  | value
  | element
  | elements
  | member
  | members

inductive Conforms : Category → List Char → Prop
  | noCharacters : Conforms .characters []
  | plain {c cs} (hc : ' ' ≤ c ∧ c ≠ '"' ∧ c ≠ '\\') (h : Conforms .characters cs) : Conforms .characters (c :: cs)
  | escape {c cs} (hc : c ∈ ['"', '\\', '/', 'b', 'f', 'n', 'r', 't']) (h : Conforms .characters cs) :
      Conforms .characters ('\\' :: c :: cs)
  | unit {ds cs} (hl : ds.length = 4) (hd : ∀ d ∈ ds, isHexDigit d = true) (h : Conforms .characters cs) :
      Conforms .characters ('\\' :: 'u' :: (ds ++ cs))
  | word {w} (hw : w ∈ ["null".toList, "true".toList, "false".toList]) : Conforms .value w
  | number {minus whole fraction exponent} (hm : minus = [] ∨ minus = ['-']) (hw : IsWhole whole)
      (hf : IsFraction fraction) (he : IsExponentPart exponent) : Conforms .value (minus ++ whole ++ fraction ++ exponent)
  | string {cs} (h : Conforms .characters cs) : Conforms .value ('"' :: (cs ++ ['"']))
  | emptyArray {bs} (hb : IsBlankRun bs) : Conforms .value ('[' :: (bs ++ [']']))
  | array {es} (h : Conforms .elements es) : Conforms .value ('[' :: (es ++ [']']))
  | emptyObject {bs} (hb : IsBlankRun bs) : Conforms .value ('\x7b' :: (bs ++ ['\x7d']))
  | object {ms} (h : Conforms .members ms) : Conforms .value ('\x7b' :: (ms ++ ['\x7d']))
  | element {as v bs} (ha : IsBlankRun as) (h : Conforms .value v) (hb : IsBlankRun bs) :
      Conforms .element (as ++ v ++ bs)
  | lastElement {e} (h : Conforms .element e) : Conforms .elements e
  | furtherElement {e es} (h : Conforms .element e) (hs : Conforms .elements es) : Conforms .elements (e ++ ',' :: es)
  | member {as n bs e} (ha : IsBlankRun as) (hn : Conforms .characters n) (hb : IsBlankRun bs)
      (h : Conforms .element e) : Conforms .member (as ++ '"' :: (n ++ ['"']) ++ bs ++ ':' :: e)
  | lastMember {m} (h : Conforms .member m) : Conforms .members m
  | furtherMember {m ms} (h : Conforms .member m) (hs : Conforms .members ms) : Conforms .members (m ++ ',' :: ms)

abbrev IsText (cs : List Char) : Prop := Conforms .element cs

section Writing

theorem Conforms.writeChar (c : Char) {cs : List Char} (h : Conforms .characters cs) :
    Conforms .characters (Json.writeChar c ++ cs) := by
  have hunit : ∀ n < 0x10000, ∀ {ds}, Conforms .characters ds → Conforms .characters (unitEscape n ++ ds) := by
    intro n hn ds hds
    have hd : (Nat.toDigits 16 n).length ≤ 4 := (Nat.length_toDigits_le_iff (by decide) (by decide)).mpr hn
    exact .unit (Text.length_lowerHex hd) (fun _ hm => Text.isHexDigit_of_mem_lowerHex hm) hds
  unfold Json.writeChar
  split
  · exact .escape (by decide) h
  split
  · exact .escape (by decide) h
  split
  · exact .escape (by decide) h
  split
  · exact .escape (by decide) h
  split
  · exact .escape (by decide) h
  split
  · exact .escape (by decide) h
  split
  · exact .escape (by decide) h
  split
  · rename_i hq hb _ _ _ _ _ hp
    exact .plain ⟨hp.1, hq, hb⟩ h
  · by_cases hc : c.toNat < 0x10000
    · rw [units, if_pos hc, List.flatMap_singleton]
      exact hunit _ hc h
    · obtain ⟨high, low, hu, hh, hl, -, -⟩ := Reader.units_eq_pair hc
      rw [hu, List.flatMap_cons, List.flatMap_singleton, List.append_assoc]
      exact hunit _ hh (hunit _ hl h)

theorem conforms_writeText (s : List Char) :
    ∃ cs, Conforms .characters cs ∧ writeText s = '"' :: (cs ++ ['"']) := by
  refine ⟨s.flatMap Json.writeChar, ?_, rfl⟩
  induction s with
  | nil => exact .noCharacters
  | cons c s ih => exact ih.writeChar c

theorem conforms_numeral (n : Numeral) : Conforms .value n.text := by
  have he : IsExponentPart n.exponent := by
    rcases n.isExponent with h | ⟨sign, ds, hs, hd, h⟩
    · exact .inl h
    · refine .inr ⟨'e', [sign], ds, .inl rfl, ?_, hd, h⟩
      rcases hs with rfl | rfl
      · exact .inr (.inl rfl)
      · exact .inr (.inr rfl)
  unfold Numeral.text
  split
  · exact .number (.inr rfl) n.isWhole n.isFraction he
  · exact .number (.inl rfl) n.isWhole n.isFraction he

theorem conforms_signedDecimal (i : Int) : Conforms .value (Number.signedDecimal i) :=
  Numeral.text_ofInteger i ▸ conforms_numeral _

theorem conforms_writeFloat {x : Number.Binary64} (h : x.IsFinite) : Conforms .value (writeFloat x) := by
  cases x with
  | finite negative m q =>
      obtain ⟨n, ht, -⟩ := Number.Binary64.text_finite negative m q
      have hw : writeFloat (.finite negative m q) = n.text := ht.symm
      exact hw ▸ conforms_numeral n
  | infinite negative => exact h.elim
  | nan => exact h.elim

theorem isBlankRun_nil : IsBlankRun [] := fun _ h => absurd h List.not_mem_nil

theorem isBlankRun_newLine (layout : Layout) (depth : Nat) : IsBlankRun (layout.newLine depth) := by
  cases layout with
  | compact => exact isBlankRun_nil
  | pretty =>
      intro c hc
      rcases List.mem_cons.mp hc with rfl | hc
      · exact .inr (.inr (.inl rfl))
      · exact .inl (List.mem_replicate.mp hc).2

theorem Conforms.member_of_value {as v bs : List Char} (ha : IsBlankRun as) (name : String) (layout : Layout)
    (h : Conforms .value v) (hb : IsBlankRun bs) :
    Conforms .member (as ++ writeText name.toList ++ layout.colon ++ v ++ bs) := by
  obtain ⟨n, hn, ht⟩ := conforms_writeText name.toList
  have hc : ∃ cs, IsBlankRun cs ∧ layout.colon = ':' :: cs := by
    cases layout with
    | compact => exact ⟨[], isBlankRun_nil, rfl⟩
    | pretty => exact ⟨[' '], fun c hc => .inl (List.mem_singleton.mp hc), rfl⟩
  obtain ⟨cs, hcs, hl⟩ := hc
  have hm := Conforms.member ha hn isBlankRun_nil (.element hcs h hb)
  simpa [ht, hl, List.append_assoc] using hm

mutual

theorem conforms_write : ∀ (j : Json) (layout : Layout) (depth : Nat), (∀ x ∈ j.floats, x.IsFinite) →
    Conforms .value (write layout depth j)
  | .null, _, _, _ => .word (by simp [write])
  | .flag true, _, _, _ => .word (by simp [write])
  | .flag false, _, _, _ => .word (by simp [write])
  | .integer i, _, _, _ => conforms_signedDecimal i
  | .float x, _, _, h => conforms_writeFloat (h x (List.mem_singleton_self x))
  | .text s, _, _, _ => by
      obtain ⟨cs, hc, ht⟩ := conforms_writeText s.toList
      rw [write, ht]
      exact .string hc
  | .array [], _, _, _ => .emptyArray isBlankRun_nil
  | .array (j :: js), layout, depth, h => by
      obtain ⟨hj, hjs⟩ := List.forall_mem_append.mp h
      have hes := conforms_writeItems js layout (depth + 1) hjs (isBlankRun_newLine layout (depth + 1))
        (conforms_write j layout (depth + 1) hj) (isBlankRun_newLine layout depth)
      exact .array hes
  | .object [], _, _, _ => .emptyObject isBlankRun_nil
  | .object ((name, j) :: ms), layout, depth, h => by
      obtain ⟨hj, hms⟩ := List.forall_mem_append.mp h
      have hes := conforms_writeMembers ms layout (depth + 1) hms (isBlankRun_newLine layout (depth + 1)) name
        (conforms_write j layout (depth + 1) hj) (isBlankRun_newLine layout depth)
      exact .object hes

theorem conforms_writeItems : ∀ (js : List Json) (layout : Layout) (depth : Nat) {as v bs : List Char},
    (∀ x ∈ floats.ofItems js, x.IsFinite) → IsBlankRun as → Conforms .value v → IsBlankRun bs →
      Conforms .elements (as ++ v ++ write.writeItems layout depth js ++ bs)
  | [], _, _, as, v, bs, _, ha, hv, hb => by
      rw [write.writeItems, List.append_nil]
      exact .lastElement (.element ha hv hb)
  | j :: js, layout, depth, as, v, bs, h, ha, hv, hb => by
      obtain ⟨hj, hjs⟩ := List.forall_mem_append.mp h
      have hes := conforms_writeItems js layout depth hjs (isBlankRun_newLine layout depth)
        (conforms_write j layout depth hj) hb
      have he := Conforms.furtherElement (.element ha hv isBlankRun_nil) hes
      simpa [write.writeItems, List.append_assoc] using he

theorem conforms_writeMembers : ∀ (ms : List (String × Json)) (layout : Layout) (depth : Nat) {as v bs : List Char},
    (∀ x ∈ floats.ofMembers ms, x.IsFinite) → IsBlankRun as → ∀ name : String, Conforms .value v → IsBlankRun bs →
      Conforms .members (as ++ writeText name.toList ++ layout.colon ++ v ++ write.writeMembers layout depth ms ++ bs)
  | [], layout, _, as, v, bs, _, ha, name, hv, hb => by
      rw [write.writeMembers, List.append_nil]
      exact .lastMember (.member_of_value ha name layout hv hb)
  | (s, j) :: ms, layout, depth, as, v, bs, h, ha, name, hv, hb => by
      obtain ⟨hj, hms⟩ := List.forall_mem_append.mp h
      have hes := conforms_writeMembers ms layout depth hms (isBlankRun_newLine layout depth) s
        (conforms_write j layout depth hj) hb
      have he := Conforms.furtherMember (.member_of_value ha name layout hv isBlankRun_nil) hes
      simpa [write.writeMembers, List.append_assoc] using he

end

end Writing

section Outside

open Rendering (Zone)

def outer : Zone → List Char → List Char
  | _, [] => []
  | z, c :: cs => if z = .outside ∧ z.next c = .outside then c :: outer (z.next c) cs else outer (z.next c) cs

theorem outer_append (z : Zone) (p q : List Char) : outer z (p ++ q) = outer z p ++ outer (z.after p) q := by
  induction p generalizing z with
  | nil => rfl
  | cons c p ih =>
      change outer z (c :: (p ++ q)) = outer z (c :: p) ++ outer ((z.next c).after p) q
      simp only [outer, ih]
      split
      · rw [List.cons_append]
      · rfl

theorem mem_of_mem_outer {z : Zone} {cs : List Char} {c : Char} (h : c ∈ outer z cs) : c ∈ cs := by
  induction cs generalizing z with
  | nil => exact h
  | cons d cs ih =>
      simp only [outer] at h
      split at h
      · rcases List.mem_cons.mp h with rfl | h
        · exact List.mem_cons_self
        · exact List.mem_cons_of_mem _ (ih h)
      · exact List.mem_cons_of_mem _ (ih h)

/-- The names of numbers start with letters that no numeral and no word of the grammar has. -/
def isOrdinary (c : Char) : Bool := c != '"' && c != '\'' && c != 'I' && c != 'N'

theorem ne_of_isOrdinary {c : Char} (h : isOrdinary c = true) : c ≠ '"' ∧ c ≠ '\'' := by
  constructor <;>
  · rintro rfl
    cases h

structure Nameless (cs : List Char) : Prop where
  closed : Zone.outside.after cs = .outside
  ordinary : ∀ c ∈ outer .outside cs, isOrdinary c = true

theorem Nameless.append {p q : List Char} (hp : Nameless p) (hq : Nameless q) : Nameless (p ++ q) where
  closed := by rw [Zone.after_append, hp.closed, hq.closed]
  ordinary := by
    rw [outer_append, hp.closed]
    exact List.forall_mem_append.mpr ⟨hp.ordinary, hq.ordinary⟩

theorem Nameless.of_all {cs : List Char} (h : cs.all isOrdinary = true) : Nameless cs where
  closed := Zone.after_outside fun c hc => ne_of_isOrdinary (List.all_eq_true.mp h c hc)
  ordinary := fun c hc => List.all_eq_true.mp h c (mem_of_mem_outer hc)

theorem Nameless.cons {c : Char} {cs : List Char} (hc : isOrdinary c = true) (h : Nameless cs) : Nameless (c :: cs) :=
  have hone : Nameless [c] := .of_all (by rw [List.all_cons, hc]; rfl)
  hone.append h

theorem Nameless.enclosed {opening closing : Char} {cs : List Char} (ho : isOrdinary opening = true)
    (hc : isOrdinary closing = true) (h : Nameless cs) : Nameless (opening :: (cs ++ [closing])) :=
  .cons ho (h.append (.cons hc (.of_all rfl)))

theorem Nameless.of_isBlankRun {bs : List Char} (h : IsBlankRun bs) : Nameless bs := by
  refine .of_all (List.all_eq_true.mpr fun c hc => ?_)
  rcases h c hc with rfl | rfl | rfl | rfl <;> rfl

theorem isOrdinary_of_isDigit {c : Char} (h : Text.isDigit c = true) : isOrdinary c = true := by
  simp only [isOrdinary, Bool.and_eq_true, bne_iff_ne]
  refine ⟨⟨⟨?_, ?_⟩, ?_⟩, ?_⟩ <;>
  · rintro rfl
    cases h

theorem Nameless.of_digits {ds : List Char} (h : ∀ d ∈ ds, Text.isDigit d = true) : Nameless ds :=
  .of_all (List.all_eq_true.mpr fun d hd => isOrdinary_of_isDigit (h d hd))

def StaysInside (cs : List Char) : Prop :=
  (Zone.inside '"').after cs = .inside '"' ∧ outer (.inside '"') cs = []

theorem StaysInside.append {p q : List Char} (hp : StaysInside p) (hq : StaysInside q) : StaysInside (p ++ q) := by
  constructor
  · rw [Zone.after_append, hp.1, hq.1]
  · rw [outer_append, hp.1, hp.2, hq.2, List.append_nil]

theorem StaysInside.of_forall {cs : List Char} (h : ∀ c ∈ cs, c ≠ '"' ∧ c ≠ '\\') : StaysInside cs := by
  induction cs with
  | nil => exact ⟨rfl, rfl⟩
  | cons c cs ih =>
      obtain ⟨hc, hcs⟩ := List.forall_mem_cons.mp h
      have hone : StaysInside [c] := by
        simp [StaysInside, Zone.after, Zone.next, hc.1, hc.2, outer]
      exact hone.append (ih hcs)

theorem StaysInside.nameless {cs : List Char} (h : StaysInside cs) : Nameless ('"' :: (cs ++ ['"'])) := by
  have ha : Zone.outside.after ('"' :: (cs ++ ['"'])) = ((Zone.inside '"').after cs).after ['"'] :=
    Zone.after_append (.inside '"') cs ['"']
  have ho : outer .outside ('"' :: (cs ++ ['"'])) = outer (.inside '"') (cs ++ ['"']) := rfl
  constructor
  · rw [ha, h.1]
    rfl
  · rw [ho, outer_append, h.1, h.2]
    exact fun c hc => absurd hc List.not_mem_nil

theorem ne_of_isHexDigit {c : Char} (h : isHexDigit c = true) : c ≠ '"' ∧ c ≠ '\\' := by
  constructor <;>
  · rintro rfl
    revert h
    decide

theorem nameless_number {minus whole fraction exponent : List Char} (hm : minus = [] ∨ minus = ['-'])
    (hw : IsWhole whole) (hf : IsFraction fraction) (he : IsExponentPart exponent) :
    Nameless (minus ++ whole ++ fraction ++ exponent) := by
  have hminus : Nameless minus := by
    rcases hm with rfl | rfl <;> exact .of_all rfl
  have hwhole : Nameless whole := by
    rcases hw with rfl | hw
    · exact .of_all rfl
    · exact .of_digits hw.1.2
  have hfraction : Nameless fraction := by
    rcases hf with rfl | ⟨ds, hd, rfl⟩
    · exact .of_all rfl
    · exact .cons rfl (.of_digits hd.2)
  have hexponent : Nameless exponent := by
    rcases he with rfl | ⟨e, sign, ds, he, hs, hd, rfl⟩
    · exact .of_all rfl
    · have hsign : Nameless sign := by
        rcases hs with rfl | rfl | rfl <;> exact .of_all rfl
      refine .cons ?_ (hsign.append (.of_digits hd.2))
      rcases he with rfl | rfl <;> rfl
  exact ((hminus.append hwhole).append hfraction).append hexponent

def Category.Sound : Category → List Char → Prop
  | .characters, cs => StaysInside cs
  | _, cs => Nameless cs

theorem Conforms.sound {c : Category} {cs : List Char} (h : Conforms c cs) : c.Sound cs := by
  induction h with
  | noCharacters => exact ⟨rfl, rfl⟩
  | plain hc _ ih => exact (StaysInside.of_forall (List.forall_mem_singleton.mpr hc.2)).append ih
  | escape hc _ ih => exact StaysInside.append (p := ['\\', _]) ⟨rfl, rfl⟩ ih
  | unit _ hd _ ih =>
      have hu : StaysInside ['\\', 'u'] := ⟨rfl, rfl⟩
      exact hu.append ((StaysInside.of_forall fun c hc => ne_of_isHexDigit (hd c hc)).append ih)
  | word hw =>
      simp only [List.mem_cons, List.not_mem_nil, or_false] at hw
      rcases hw with rfl | rfl | rfl <;> exact Nameless.of_all rfl
  | number hm hw hf he => exact nameless_number hm hw hf he
  | string _ ih => exact StaysInside.nameless ih
  | emptyArray hb => exact .enclosed rfl rfl (.of_isBlankRun hb)
  | array _ ih => exact .enclosed rfl rfl ih
  | emptyObject hb => exact .enclosed rfl rfl (.of_isBlankRun hb)
  | object _ ih => exact .enclosed rfl rfl ih
  | element ha _ hb ih => exact ((Nameless.of_isBlankRun ha).append ih).append (.of_isBlankRun hb)
  | lastElement _ ih => exact ih
  | furtherElement _ _ ih ihs => exact Nameless.append ih (.cons rfl ihs)
  | member ha _ hb _ ihn ih =>
      exact (((Nameless.of_isBlankRun ha).append (StaysInside.nameless ihn)).append (.of_isBlankRun hb)).append
        (.cons rfl ih)
  | lastMember _ ih => exact ih
  | furtherMember _ _ ih ihs => exact Nameless.append ih (.cons rfl ihs)

def Named (cs : List Char) : Prop := ∃ c ∈ outer .outside cs, isOrdinary c = false

theorem Named.before {p : List Char} (h : Named p) (q : List Char) : Named (p ++ q) := by
  obtain ⟨c, hc, hi⟩ := h
  refine ⟨c, ?_, hi⟩
  rw [outer_append]
  exact List.mem_append_left _ hc

theorem Named.behind {p q : List Char} (hp : Zone.outside.after p = .outside) (h : Named q) : Named (p ++ q) := by
  obtain ⟨c, hc, hi⟩ := h
  refine ⟨c, ?_, hi⟩
  rw [outer_append, hp]
  exact List.mem_append_right _ hc

theorem closed_write (layout : Layout) (depth : Nat) (j : Json) :
    Zone.outside.after (write layout depth j) = .outside := by
  cases layout with
  | pretty => exact (Rendering.agree_write j depth depth).closed_left
  | compact => exact (Rendering.agree_write j depth depth).closed_right

theorem closed_newLine (layout : Layout) (depth : Nat) : Zone.outside.after (layout.newLine depth) = .outside :=
  (Nameless.of_isBlankRun (isBlankRun_newLine layout depth)).closed

theorem closed_name (layout : Layout) (depth : Nat) (s : String) :
    Zone.outside.after (layout.newLine depth ++ writeText s.toList ++ layout.colon) = .outside := by
  have hc : Zone.outside.after layout.colon = .outside := by cases layout <;> rfl
  rw [Zone.after_append, Zone.after_append, closed_newLine, (Rendering.agree_writeText s.toList).closed_left, hc]

variable {x : Number.Binary64}

theorem named_writeFloat (h : ¬ x.IsFinite) : Named (writeFloat x) := by
  cases x with
  | finite negative m q => exact absurd trivial h
  | infinite negative =>
      refine ⟨'I', ?_, rfl⟩
      cases negative <;> decide
  | nan => exact ⟨'N', by decide, rfl⟩

mutual

theorem named_write (hn : ¬ x.IsFinite) : ∀ (j : Json) (layout : Layout) (depth : Nat), x ∈ j.floats →
    Named (write layout depth j)
  | .float y, _, _, h => by
      cases List.mem_singleton.mp h
      exact named_writeFloat hn
  | .array (j :: js), layout, depth, h => by
      have hopen : Zone.outside.after ('[' :: layout.newLine (depth + 1)) = .outside := closed_newLine layout (depth + 1)
      have hbody : Named ('[' :: layout.newLine (depth + 1) ++ (write layout (depth + 1) j ++
          write.writeItems layout (depth + 1) js)) := by
        refine .behind hopen ?_
        rcases List.mem_append.mp h with h | h
        · exact (named_write hn j layout (depth + 1) h).before _
        · exact .behind (closed_write layout (depth + 1) j) (named_writeItems hn js layout (depth + 1) h)
      simpa [write, List.append_assoc] using hbody.before (layout.newLine depth ++ [']'])
  | .object ((s, j) :: ms), layout, depth, h => by
      have hopen : Zone.outside.after ('\x7b' :: (layout.newLine (depth + 1) ++ writeText s.toList ++ layout.colon)) =
          .outside := closed_name layout (depth + 1) s
      have hbody : Named ('\x7b' :: (layout.newLine (depth + 1) ++ writeText s.toList ++ layout.colon) ++
          (write layout (depth + 1) j ++ write.writeMembers layout (depth + 1) ms)) := by
        refine .behind hopen ?_
        rcases List.mem_append.mp h with h | h
        · exact (named_write hn j layout (depth + 1) h).before _
        · exact .behind (closed_write layout (depth + 1) j) (named_writeMembers hn ms layout (depth + 1) h)
      simpa [write, List.append_assoc] using hbody.before (layout.newLine depth ++ ['\x7d'])

theorem named_writeItems (hn : ¬ x.IsFinite) : ∀ (js : List Json) (layout : Layout) (depth : Nat),
    x ∈ floats.ofItems js → Named (write.writeItems layout depth js)
  | j :: js, layout, depth, h => by
      have hopen : Zone.outside.after (',' :: layout.newLine depth) = .outside := closed_newLine layout depth
      have hbody : Named (',' :: layout.newLine depth ++ (write layout depth j ++
          write.writeItems layout depth js)) := by
        refine .behind hopen ?_
        rcases List.mem_append.mp h with h | h
        · exact (named_write hn j layout depth h).before _
        · exact .behind (closed_write layout depth j) (named_writeItems hn js layout depth h)
      simpa [write.writeItems, List.append_assoc] using hbody

theorem named_writeMembers (hn : ¬ x.IsFinite) : ∀ (ms : List (String × Json)) (layout : Layout) (depth : Nat),
    x ∈ floats.ofMembers ms → Named (write.writeMembers layout depth ms)
  | (s, j) :: ms, layout, depth, h => by
      have hopen : Zone.outside.after (',' :: (layout.newLine depth ++ writeText s.toList ++ layout.colon)) =
          .outside := closed_name layout depth s
      have hbody : Named (',' :: (layout.newLine depth ++ writeText s.toList ++ layout.colon) ++
          (write layout depth j ++ write.writeMembers layout depth ms)) := by
        refine .behind hopen ?_
        rcases List.mem_append.mp h with h | h
        · exact (named_write hn j layout depth h).before _
        · exact .behind (closed_write layout depth j) (named_writeMembers hn ms layout depth h)
      simpa [write.writeMembers, List.append_assoc] using hbody

end

end Outside

theorem isText_write (layout : Layout) (depth : Nat) (j : Json) {bs : List Char} (hb : IsBlankRun bs) :
    IsText (write layout depth j ++ bs) ↔ ∀ x ∈ j.floats, x.IsFinite := by
  constructor
  · intro h x hx
    by_contra hn
    obtain ⟨c, hc, hi⟩ := (named_write hn j layout depth hx).before bs
    have hs : Nameless (write layout depth j ++ bs) := h.sound
    rw [hs.ordinary c hc] at hi
    cases hi
  · intro h
    have hv : Conforms .value (write layout depth j) := conforms_write j layout depth h
    exact Conforms.element isBlankRun_nil hv hb

end Json

end ProtoBundle
