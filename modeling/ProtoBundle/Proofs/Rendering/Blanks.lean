import ProtoBundle.Proofs.Number.Numeral
import ProtoBundle.Json.Text

/-!
Blanks that do not count. A scan of a text knows whether it is in a string literal, between single or double
quotes with escapes by a backslash. Blanks and line feeds outside of literals can be dropped, which leaves the
literals as they are. The two layouts of a document are alike up to such blanks.
-/

namespace ProtoBundle.Rendering

open Json (Layout)

inductive Zone where
  | outside
  | inside (quote : Char)
  | escaped (quote : Char)
  deriving DecidableEq

def Zone.next : Zone → Char → Zone
  | .outside, c => if c = '"' ∨ c = '\'' then .inside c else .outside
  | .inside quote, c => if c = '\\' then .escaped quote else if c = quote then .outside else .inside quote
  | .escaped quote, _ => .inside quote

def Zone.after (z : Zone) (cs : List Char) : Zone := cs.foldl next z

def bare : Zone → List Char → List Char
  | _, [] => []
  | z, c :: cs => if z = .outside ∧ (c = ' ' ∨ c = '\n') then bare (z.next c) cs else c :: bare (z.next c) cs

def literals : Zone → List Char → List Char
  | _, [] => []
  | z, c :: cs => if z = .outside ∧ z.next c = .outside then literals (z.next c) cs else c :: literals (z.next c) cs

theorem Zone.after_append (z : Zone) (p q : List Char) : z.after (p ++ q) = (z.after p).after q :=
  List.foldl_append

theorem bare_append (z : Zone) (p q : List Char) : bare z (p ++ q) = bare z p ++ bare (z.after p) q := by
  induction p generalizing z with
  | nil => rfl
  | cons c p ih =>
      change bare z (c :: (p ++ q)) = bare z (c :: p) ++ bare ((z.next c).after p) q
      simp only [bare, ih]
      split
      · rfl
      · rw [List.cons_append]

theorem literals_bare (z : Zone) (cs : List Char) : literals z (bare z cs) = literals z cs := by
  induction cs generalizing z with
  | nil => rfl
  | cons c cs ih =>
      simp only [bare]
      split
      · rename_i hb
        obtain ⟨rfl, hc⟩ := hb
        have hn : Zone.outside.next c = .outside := by rcases hc with rfl | rfl <;> rfl
        rw [hn, ih, literals, if_pos ⟨rfl, hn⟩, hn]
      · simp only [literals, ih]

structure Agree (p q : List Char) : Prop where
  closed_left : Zone.outside.after p = .outside
  closed_right : Zone.outside.after q = .outside
  bare_eq : bare .outside p = bare .outside q

theorem Agree.append {p q p' q' : List Char} (h : Agree p q) (h' : Agree p' q') : Agree (p ++ p') (q ++ q') where
  closed_left := by rw [Zone.after_append, h.closed_left, h'.closed_left]
  closed_right := by rw [Zone.after_append, h.closed_right, h'.closed_right]
  bare_eq := by rw [bare_append, bare_append, h.closed_left, h.closed_right, h.bare_eq, h'.bare_eq]

theorem Agree.of_closed {p : List Char} (h : Zone.outside.after p = .outside) : Agree p p := ⟨h, h, rfl⟩

theorem Zone.after_outside {p : List Char} (h : ∀ c ∈ p, c ≠ '"' ∧ c ≠ '\'') : Zone.outside.after p = .outside := by
  induction p with
  | nil => rfl
  | cons c p ih =>
      obtain ⟨hc, hp⟩ := List.forall_mem_cons.mp h
      have hn : Zone.outside.next c = .outside := if_neg fun hq => hq.elim hc.1 hc.2
      change (Zone.outside.next c).after p = .outside
      rw [hn, ih hp]

theorem Agree.of_no_quotes {p : List Char} (h : ∀ c ∈ p, c ≠ '"' ∧ c ≠ '\'') : Agree p p :=
  .of_closed (Zone.after_outside h)

theorem Zone.after_inside {quote : Char} {p : List Char} (h : ∀ c ∈ p, c ≠ quote ∧ c ≠ '\\') :
    (Zone.inside quote).after p = .inside quote := by
  induction p with
  | nil => rfl
  | cons c p ih =>
      obtain ⟨hc, hp⟩ := List.forall_mem_cons.mp h
      have hn : (Zone.inside quote).next c = .inside quote := by simp only [next, hc.1, hc.2, if_false]
      change ((Zone.inside quote).next c).after p = .inside quote
      rw [hn, ih hp]

def StaysInside (p : List Char) : Prop := (Zone.inside '"').after p = .inside '"'

theorem StaysInside.flatMap {α : Type} {f : α → List Char} {as : List α} (h : ∀ a ∈ as, StaysInside (f a)) :
    StaysInside (as.flatMap f) := by
  induction as with
  | nil => rfl
  | cons a as ih =>
      obtain ⟨ha, has⟩ := List.forall_mem_cons.mp h
      rw [StaysInside, List.flatMap_cons, Zone.after_append, ha]
      exact ih has

theorem staysInside_unitEscape (unit : Nat) : StaysInside (Json.unitEscape unit) := by
  refine Zone.after_inside (p := Text.lowerHex unit 4) fun c hc => ?_
  have hd := Text.isHexDigit_of_mem_lowerHex hc
  constructor <;>
  · rintro rfl
    revert hd
    decide

theorem staysInside_writeChar (c : Char) : StaysInside (Json.writeChar c) := by
  unfold Json.writeChar
  split
  · rfl
  split
  · rfl
  split
  · rfl
  split
  · rfl
  split
  · rfl
  split
  · rfl
  split
  · rfl
  split
  · rename_i hq hb _ _ _ _ _ _
    exact Zone.after_inside (by simpa using ⟨hq, hb⟩)
  · exact .flatMap fun unit _ => staysInside_unitEscape unit

theorem agree_writeText (s : List Char) : Agree (Json.writeText s) (Json.writeText s) := by
  have hs : StaysInside (s.flatMap Json.writeChar) := .flatMap fun c _ => staysInside_writeChar c
  refine .of_closed ?_
  change (Zone.inside '"').after (s.flatMap Json.writeChar ++ ['"']) = .outside
  rw [Zone.after_append, hs]
  rfl

theorem no_quotes_numeral (n : Number.Numeral) : ∀ c ∈ n.text, c ≠ '"' ∧ c ≠ '\'' := by
  intro c hc
  have hm := n.mem_text c hc
  constructor <;>
  · rintro rfl
    revert hm
    decide

theorem agree_signedDecimal (i : Int) : Agree (Number.signedDecimal i) (Number.signedDecimal i) := by
  rw [← Number.Numeral.text_ofInteger]
  exact .of_no_quotes (no_quotes_numeral _)

theorem agree_writeFloat (x : Number.Binary64) : Agree (Json.writeFloat x) (Json.writeFloat x) := by
  cases x with
  | finite negative m q =>
      obtain ⟨n, ht, -⟩ := Number.Binary64.text_finite negative m q
      have hw : Json.writeFloat (.finite negative m q) = n.text := ht.symm
      rw [hw]
      exact .of_no_quotes (no_quotes_numeral n)
  | infinite negative => cases negative <;> exact .of_closed rfl
  | nan => exact .of_closed rfl

theorem agree_newLine (d e : Nat) : Agree (Layout.pretty.newLine d) (Layout.compact.newLine e) := by
  have hz : ∀ n, Agree (List.replicate n ' ') [] := by
    intro n
    induction n with
    | zero => exact .of_closed rfl
    | succ n ih => exact ⟨ih.closed_left, rfl, ih.bare_eq⟩
  exact ⟨(hz (4 * d)).closed_left, rfl, (hz (4 * d)).bare_eq⟩

theorem agree_colon : Agree Layout.pretty.colon Layout.compact.colon := ⟨rfl, rfl, rfl⟩

mutual

theorem agree_write : ∀ (j : Json) (d e : Nat), Agree (Json.write .pretty d j) (Json.write .compact e j)
  | .null, _, _ => .of_closed rfl
  | .flag true, _, _ => .of_closed rfl
  | .flag false, _, _ => .of_closed rfl
  | .integer i, _, _ => agree_signedDecimal i
  | .float x, _, _ => agree_writeFloat x
  | .text s, _, _ => agree_writeText s.toList
  | .array [], _, _ => .of_closed rfl
  | .array (j :: js), d, e =>
      have items := ((agree_newLine (d + 1) (e + 1)).append (agree_write j (d + 1) (e + 1))).append
        (agree_writeItems js (d + 1) (e + 1))
      (Agree.of_closed (p := ['[']) rfl).append ((items.append (agree_newLine d e)).append (.of_closed rfl))
  | .object [], _, _ => .of_closed rfl
  | .object ((name, j) :: ms), d, e =>
      have first := (((agree_newLine (d + 1) (e + 1)).append (agree_writeText name.toList)).append agree_colon).append
        (agree_write j (d + 1) (e + 1))
      have members := first.append (agree_writeMembers ms (d + 1) (e + 1))
      (Agree.of_closed (p := ['\x7b']) rfl).append ((members.append (agree_newLine d e)).append (.of_closed rfl))

theorem agree_writeItems : ∀ (js : List Json) (d e : Nat),
    Agree (Json.write.writeItems .pretty d js) (Json.write.writeItems .compact e js)
  | [], _, _ => .of_closed rfl
  | j :: js, d, e =>
      (Agree.of_closed (p := [',']) rfl).append
        (((agree_newLine d e).append (agree_write j d e)).append (agree_writeItems js d e))

theorem agree_writeMembers : ∀ (ms : List (String × Json)) (d e : Nat),
    Agree (Json.write.writeMembers .pretty d ms) (Json.write.writeMembers .compact e ms)
  | [], _, _ => .of_closed rfl
  | (name, j) :: ms, d, e =>
      have first := (((agree_newLine d e).append (agree_writeText name.toList)).append agree_colon).append
        (agree_write j d e)
      (Agree.of_closed (p := [',']) rfl).append (first.append (agree_writeMembers ms d e))

end

end ProtoBundle.Rendering
