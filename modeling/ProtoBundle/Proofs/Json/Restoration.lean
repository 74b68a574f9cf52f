import ProtoBundle.Proofs.Json.Reader
import ProtoBundle.Proofs.Number.Numeral

namespace ProtoBundle.Json

open Text (isDigit isHexDigit)
open Number (Numeral AreDigits IsWhole IsFraction IsExponent)

namespace Reader

theorem skipBlanks_append {bs : List Char} (h : ∀ b ∈ bs, isBlank b = true) (cs : List Char) :
    skipBlanks (bs ++ cs) = skipBlanks cs := List.dropWhile_append_of_pos h

theorem skipBlanks_cons {c : Char} (h : isBlank c = false) (cs : List Char) : skipBlanks (c :: cs) = c :: cs := by
  simp [skipBlanks, h]

theorem isBlank_of_mem_newLine {layout : Layout} {depth : Nat} {c : Char} (h : c ∈ layout.newLine depth) :
    isBlank c = true := by
  cases layout with
  | compact => cases h
  | pretty =>
      rcases List.mem_cons.mp h with rfl | h
      · rfl
      · rw [(List.mem_replicate.mp h).2]
        rfl

theorem skipBlanks_newLine (layout : Layout) (depth : Nat) (cs : List Char) :
    skipBlanks (layout.newLine depth ++ cs) = skipBlanks cs :=
  skipBlanks_append (fun _ h => isBlank_of_mem_newLine h) cs

theorem unit_lowerHex {n : Nat} (h : n < 0x10000) (cs : List Char) :
    unit (Text.lowerHex n 4 ++ cs) = some (n, cs) := by
  have hd : (Nat.toDigits 16 n).length ≤ 4 := (Nat.length_toDigits_le_iff (by decide) (by decide)).mpr h
  have hl : (Text.lowerHex n 4).length = 4 := Text.length_lowerHex hd
  have hv : Number.ofDigits 16 (Text.lowerHex n 4) = n := Text.ofDigits_lowerHex n 4
  have hh : ∀ c ∈ Text.lowerHex n 4, isHexDigit c = true := fun c hc => Text.isHexDigit_of_mem_lowerHex hc
  revert hl hv hh
  generalize Text.lowerHex n 4 = ds
  intro hl hv hh
  match ds, hl with
  | [a, b, c, d], _ =>
      have hall : isHexDigit a ∧ isHexDigit b ∧ isHexDigit c ∧ isHexDigit d := by simpa using hh
      simp [unit, hall, hv]

theorem toNat_lt (c : Char) : c.toNat < 0x110000 := by
  have h := c.valid
  simp only [UInt32.isValidChar, Nat.isValidChar] at h
  change c.val.toNat < _
  omega

theorem isSurrogate_toNat (c : Char) : isSurrogate c.toNat = false := by
  have h : c.toNat < 0xD800 ∨ 0xE000 ≤ c.toNat := by
    rcases c.valid with h | h
    · exact .inl h
    · exact .inr h.1
  simp only [isSurrogate, decide_eq_false_iff_not]
  omega

theorem escaped_unit {c : Char} (h : c.toNat < 0x10000) (cs : List Char) :
    escaped ('u' :: (Text.lowerHex c.toNat 4 ++ cs)) = some (c, cs) := by
  simp only [escaped, escapedCode, unit_lowerHex h, Option.bind_some, isSurrogate_toNat, Bool.false_eq_true, if_false,
    Char.ofNat_toNat]

theorem escaped_pair {c : Char} {high low : Nat} (hh : high < 0x10000) (hl : low < 0x10000)
    (hs : isSurrogate high = true) (hp : paired high low = some c) (cs : List Char) :
    escaped ('u' :: (Text.lowerHex high 4 ++ unitEscape low ++ cs)) = some (c, cs) := by
  simp only [escaped, escapedCode, unitEscape, List.append_assoc, List.cons_append, unit_lowerHex hh, unit_lowerHex hl,
    Option.bind_some, hs, if_true, lowSurrogate, hp, Option.map_some]

theorem units_eq_pair {c : Char} (hc : ¬c.toNat < 0x10000) :
    ∃ high low, units c = [high, low] ∧ high < 0x10000 ∧ low < 0x10000 ∧ isSurrogate high = true ∧
      paired high low = some c := by
  have hlt : c.toNat < 0x110000 := toNat_lt c
  refine ⟨_, _, if_neg hc, by omega, by omega, decide_eq_true (by omega), ?_⟩
  generalize hh : 0xD800 + (c.toNat - 0x10000) / 0x400 = high
  generalize hl : 0xDC00 + (c.toNat - 0x10000) % 0x400 = low
  have hv : 0x10000 + (high - 0xD800) * 0x400 + (low - 0xDC00) = c.toNat := by omega
  rw [paired, if_pos (by omega), hv, Char.ofNat_toNat]

theorem escaped_units (c : Char) (cs : List Char) :
    ∃ tail, (units c).flatMap unitEscape = '\\' :: tail ∧ escaped (tail ++ cs) = some (c, cs) := by
  by_cases hc : c.toNat < 0x10000
  · refine ⟨'u' :: Text.lowerHex c.toNat 4, ?_, escaped_unit hc cs⟩
    rw [units, if_pos hc, List.flatMap_cons, List.flatMap_nil, List.append_nil, unitEscape]
  · obtain ⟨high, low, hu, hh, hl, hs, hp⟩ := units_eq_pair hc
    refine ⟨'u' :: (Text.lowerHex high 4 ++ unitEscape low), ?_, escaped_pair hh hl hs hp cs⟩
    rw [hu, List.flatMap_cons, List.flatMap_cons, List.flatMap_nil, List.append_nil]
    rfl

theorem quoted_escape {tail : List Char} {c : Char} {cs : List Char} (h : escaped tail = some (c, cs)) :
    quoted ('\\' :: tail) = (quoted cs).map fun r => (c :: r.1, r.2) := by
  rw [quoted.eq_def]
  simp only [Char.reduceEq, if_false, if_true]
  split
  · rename_i d rest he
    rw [h] at he
    cases he
    rfl
  · rename_i he
    rw [h] at he
    cases he

theorem quoted_plain {c : Char} (hq : c ≠ '"') (hb : c ≠ '\\') (hc : ¬c < ' ') (cs : List Char) :
    quoted (c :: cs) = (quoted cs).map fun r => (c :: r.1, r.2) := by
  rw [quoted]
  simp only [hq, hb, hc, if_false]

theorem quoted_writeChar (c : Char) (cs : List Char) :
    quoted (writeChar c ++ cs) = (quoted cs).map fun r => (c :: r.1, r.2) := by
  unfold writeChar
  split
  · subst c
    exact quoted_escape rfl
  split
  · subst c
    exact quoted_escape rfl
  split
  · subst c
    exact quoted_escape rfl
  split
  · subst c
    exact quoted_escape rfl
  split
  · subst c
    exact quoted_escape rfl
  split
  · subst c
    exact quoted_escape rfl
  split
  · subst c
    exact quoted_escape rfl
  split
  · rename_i hq hb _ _ _ _ _ hp
    exact quoted_plain hq hb (Char.not_lt.mpr hp.1) cs
  · obtain ⟨tail, ht, he⟩ := escaped_units c cs
    rw [ht, List.cons_append]
    exact quoted_escape he

theorem quoted_flatMap_writeChar (s rest : List Char) :
    quoted (s.flatMap writeChar ++ '"' :: rest) = some (s, rest) := by
  induction s with
  | nil => rw [List.flatMap_nil, List.nil_append, quoted, if_pos rfl]
  | cons c s ih => rw [List.flatMap_cons, List.append_assoc, quoted_writeChar, ih, Option.map_some]

def EndsNumber (cs : List Char) : Prop := ∀ c ∈ cs.head?, isDigit c = false ∧ c ≠ '.' ∧ c ≠ 'e' ∧ c ≠ 'E'

theorem endsNumber_cons {c : Char} (h : isDigit c = false ∧ c ≠ '.' ∧ c ≠ 'e' ∧ c ≠ 'E') (cs : List Char) :
    EndsNumber (c :: cs) := by
  rintro d ⟨⟩
  exact h

theorem digits_eq_nil {cs : List Char} (h : ∀ c ∈ cs.head?, isDigit c = false) : digits cs = [] := by
  cases cs with
  | nil => rfl
  | cons c cs => simp [digits, h c rfl]

theorem afterDigits_eq_self {cs : List Char} (h : ∀ c ∈ cs.head?, isDigit c = false) : afterDigits cs = cs := by
  cases cs with
  | nil => rfl
  | cons c cs => simp [afterDigits, h c rfl]

theorem digits_append {ds cs : List Char} (hd : AreDigits ds) (h : ∀ c ∈ cs.head?, isDigit c = false) :
    digits (ds ++ cs) = ds := by
  have hn := digits_eq_nil h
  unfold digits at hn ⊢
  rw [List.takeWhile_append_of_pos hd.2, hn, List.append_nil]

theorem afterDigits_append {ds cs : List Char} (hd : AreDigits ds) (h : ∀ c ∈ cs.head?, isDigit c = false) :
    afterDigits (ds ++ cs) = cs := by
  have hn := afterDigits_eq_self h
  unfold afterDigits at hn ⊢
  rw [List.dropWhile_append_of_pos hd.2, hn]

theorem wholePart_append {whole cs : List Char} (hw : IsWhole whole) (h : ∀ c ∈ cs.head?, isDigit c = false) :
    wholePart (whole ++ cs) = some (whole, cs) := by
  rcases hw with rfl | ⟨hd, h0⟩
  · rfl
  · have hne := hd.1
    have ht := digits_append hd h
    have hr := afterDigits_append hd h
    cases whole with
    | nil => exact absurd rfl hne
    | cons c ds =>
        have hc : c ≠ '0' := fun hc => h0 (congrArg some hc)
        rw [List.cons_append] at ht hr ⊢
        unfold wholePart
        split
        · rename_i heq
          exact absurd (List.cons.inj heq).1 hc
        · rw [if_neg (ht ▸ hne), ht, hr]

theorem fractionPart_append {fraction cs : List Char} (hf : IsFraction fraction)
    (h : EndsNumber cs ∨ ∃ r, cs = 'e' :: r) :
    fractionPart (fraction ++ cs) = (fraction, cs) := by
  have hc : ∀ c ∈ cs.head?, isDigit c = false ∧ c ≠ '.' := by
    rcases h with h | ⟨r, rfl⟩
    · exact fun c hc => ⟨(h c hc).1, (h c hc).2.1⟩
    · rintro c ⟨⟩
      decide
  rcases hf with rfl | ⟨ds, hd, rfl⟩
  · rw [List.nil_append]
    unfold fractionPart
    split
    · exact absurd rfl (hc '.' rfl).2
    · rfl
  · have ht := digits_append hd fun c h => (hc c h).1
    have hr := afterDigits_append hd fun c h => (hc c h).1
    simp only [List.cons_append, fractionPart, ht, hr, hd.1, if_false]

theorem exponentPart_append {exponent cs : List Char} (he : IsExponent exponent) (h : EndsNumber cs) :
    exponentPart (exponent ++ cs) = (exponent, cs) := by
  rcases he with rfl | ⟨sign, ds, hs, hd, rfl⟩
  · cases cs with
    | nil => rfl
    | cons c cs =>
        obtain ⟨-, -, h1, h2⟩ := h c rfl
        simp [exponentPart, h1, h2]
  · have ht := digits_append hd fun c hc => (h c hc).1
    have hr := afterDigits_append hd fun c hc => (h c hc).1
    rcases hs with rfl | rfl
    · simp [exponentPart, exponentSign, ht, hr, hd.1]
    · simp [exponentPart, exponentSign, ht, hr, hd.1]

def ofNumeral (n : Numeral) : Datum :=
  let size : Int := Number.ofDigits 10 n.whole
  if n.isInteger then .integer (if n.negative then -size else size) else .float n.text

theorem head_magnitude (n : Numeral) : ∃ c cs, n.magnitude = c :: cs ∧ isDigit c = true := by
  have hw : ∃ c cs, n.whole = c :: cs ∧ isDigit c = true := by
    rcases n.isWhole with h | ⟨hd, -⟩
    · exact ⟨'0', [], h, rfl⟩
    · cases hc : n.whole with
      | nil => exact absurd hc hd.1
      | cons c cs => exact ⟨c, cs, rfl, hd.2 c (hc ▸ List.mem_cons_self ..)⟩
  obtain ⟨c, cs, hc, hd⟩ := hw
  exact ⟨c, cs ++ (n.fraction ++ n.exponent), by simp [Numeral.magnitude, hc], hd⟩

theorem ne_of_isDigit {c d : Char} (hc : isDigit c = true) (hd : isDigit d = false) : c ≠ d := by
  rintro rfl
  rw [hc] at hd
  cases hd

theorem minusSign_text (n : Numeral) (cs : List Char) :
    minusSign (n.text ++ cs) = (if n.negative then ['-'] else [], n.magnitude ++ cs) := by
  unfold Numeral.text
  split
  · rfl
  · obtain ⟨c, rest, hm, hd⟩ := head_magnitude n
    rw [hm, List.cons_append]
    unfold minusSign
    split
    · rename_i heq
      exact absurd (List.cons.inj heq).1 (ne_of_isDigit hd rfl)
    · rfl

theorem number_text (n : Numeral) {cs : List Char} (h : EndsNumber cs) :
    number (n.text ++ cs) = some (ofNumeral n, cs) := by
  have he : EndsNumber (n.exponent ++ cs) ∨ ∃ r, n.exponent ++ cs = 'e' :: r := by
    rcases n.isExponent with hn | ⟨sign, ds, -, -, hn⟩
    · exact .inl (hn ▸ h)
    · exact .inr ⟨_, by rw [hn, List.cons_append]⟩
  have hf : ∀ c ∈ (n.fraction ++ (n.exponent ++ cs)).head?, isDigit c = false := by
    rcases n.isFraction with hn | ⟨ds, -, hn⟩
    · rw [hn, List.nil_append]
      rcases he with he | ⟨r, hr⟩
      · exact fun c hc => (he c hc).1
      · rw [hr]
        rintro c ⟨⟩
        rfl
    · rw [hn]
      rintro c ⟨⟩
      rfl
  unfold number
  rw [minusSign_text]
  simp only [Numeral.magnitude, List.append_assoc, wholePart_append n.isWhole hf,
    fractionPart_append n.isFraction he, exponentPart_append n.isExponent h]
  by_cases hi : n.fraction = [] ∧ n.exponent = []
  · cases hn : n.negative <;> simp [ofNumeral, Numeral.isInteger, hi, hn]
  · have hb : n.isInteger = false := by simpa [Numeral.isInteger] using hi
    cases hn : n.negative <;> simp [ofNumeral, hb, hi, hn, Numeral.text, Numeral.magnitude]

theorem scalar_text (n : Numeral) {cs : List Char} (h : EndsNumber cs) :
    scalar (n.text ++ cs) = some (ofNumeral n, cs) := by
  have hw : words.find? (fun w => w.1.isPrefixOf (n.text ++ cs)) = none := by
    obtain ⟨c, rest, hm, hd⟩ := head_magnitude n
    have hne : 'n' ≠ c ∧ 't' ≠ c ∧ 'f' ≠ c ∧ 'N' ≠ c ∧ 'I' ≠ c ∧ '-' ≠ c := by
      refine ⟨?_, ?_, ?_, ?_, ?_, ?_⟩ <;> exact (ne_of_isDigit hd rfl).symm
    unfold Numeral.text
    split <;> simp [hm, words, List.isPrefixOf, hne]
  rw [scalar, hw]
  exact number_text n h

theorem value_append {bs : List Char} (h : ∀ b ∈ bs, isBlank b = true) (fuel : Nat) (cs : List Char) :
    value fuel (bs ++ cs) = value fuel cs := by
  cases fuel with
  | zero => rfl
  | succ fuel => rw [value, value, skipBlanks_append h]

theorem value_newLine (layout : Layout) (depth fuel : Nat) (cs : List Char) :
    value fuel (layout.newLine depth ++ cs) = value fuel cs :=
  value_append (fun _ h => isBlank_of_mem_newLine h) fuel cs

theorem value_eq_scalar {c : Char} (hb : isBlank c = false) (h : c ≠ '"' ∧ c ≠ '[' ∧ c ≠ '\x7b') (fuel : Nat)
    (cs : List Char) : value (fuel + 1) (c :: cs) = scalar (c :: cs) := by
  rw [value, skipBlanks_cons hb]
  split
  · rename_i heq
    exact absurd (List.cons.inj heq).1 h.1
  · rename_i heq
    exact absurd (List.cons.inj heq).1 h.2.1
  · rename_i heq
    exact absurd (List.cons.inj heq).1 h.2.2
  · rfl

theorem notBlank_of_isDigit {c : Char} (h : isDigit c = true) : isBlank c = false ∧ c ≠ ']' := by
  refine ⟨?_, ne_of_isDigit h rfl⟩
  simp only [isBlank, Bool.or_eq_false_iff, beq_eq_false_iff_ne]
  exact ⟨⟨⟨ne_of_isDigit h rfl, ne_of_isDigit h rfl⟩, ne_of_isDigit h rfl⟩, ne_of_isDigit h rfl⟩

theorem value_text (n : Numeral) {cs : List Char} (h : EndsNumber cs) (fuel : Nat) :
    value (fuel + 1) (n.text ++ cs) = some (ofNumeral n, cs) := by
  have hs := scalar_text n h
  obtain ⟨c, rest, hm, hd⟩ := head_magnitude n
  unfold Numeral.text at hs ⊢
  split at hs
  · rename_i hn
    rw [if_pos hn, List.cons_append]
    rw [List.cons_append] at hs
    rw [value_eq_scalar rfl (by decide), hs]
  · rename_i hn
    have hb : isBlank c = false := (notBlank_of_isDigit hd).1
    rw [if_neg hn, hm, List.cons_append]
    rw [hm, List.cons_append] at hs
    rw [value_eq_scalar hb ⟨ne_of_isDigit hd rfl, ne_of_isDigit hd rfl, ne_of_isDigit hd rfl⟩, hs]

theorem ofNumeral_ofInteger (i : Int) : ofNumeral (Numeral.ofInteger i) = .integer i := by
  simp only [ofNumeral, Numeral.isInteger, Numeral.ofInteger, Number.ofDigits_decimal, List.isEmpty_nil,
    Bool.and_self, if_true, decide_eq_true_eq, Datum.integer.injEq]
  split <;> omega

theorem value_signedDecimal (i : Int) {cs : List Char} (h : EndsNumber cs) (fuel : Nat) :
    value (fuel + 1) (Number.signedDecimal i ++ cs) = some (.integer i, cs) := by
  rw [← Numeral.text_ofInteger, value_text _ h, ofNumeral_ofInteger]

theorem value_writeFloat (x : Number.Binary64) {cs : List Char} (h : EndsNumber cs) (fuel : Nat) :
    value (fuel + 1) (writeFloat x ++ cs) = some (.float (writeFloat x), cs) := by
  cases x with
  | finite negative m q =>
      obtain ⟨n, ht, hi⟩ := Number.Binary64.text_finite negative m q
      have hv := value_text n h fuel
      rw [ofNumeral, hi, ht] at hv
      exact hv
  | infinite negative => cases negative <;> rfl
  | nan => rfl

theorem value_writeText (s : String) (fuel : Nat) (cs : List Char) :
    value (fuel + 1) (writeText s.toList ++ cs) = some (.text s, cs) := by
  have hq : value (fuel + 1) (writeText s.toList ++ cs) =
      (quoted (s.toList.flatMap writeChar ++ '"' :: cs)).map fun r => (.text (String.ofList r.1), r.2) := by
    rw [writeText, List.cons_append, List.append_assoc, List.singleton_append]
    rfl
  rw [hq, quoted_flatMap_writeChar, Option.map_some, String.ofList_toList]

theorem name_writeText (s : String) (cs : List Char) : name (writeText s.toList ++ cs) = some (s, cs) := by
  have hq : name (writeText s.toList ++ cs) =
      (quoted (s.toList.flatMap writeChar ++ '"' :: cs)).map fun r => (String.ofList r.1, r.2) := by
    rw [writeText, List.cons_append, List.append_assoc, List.singleton_append]
    rfl
  rw [hq, quoted_flatMap_writeChar, Option.map_some, String.ofList_toList]

theorem name_newLine (layout : Layout) (depth : Nat) (cs : List Char) :
    name (layout.newLine depth ++ cs) = name cs := by
  rw [name, name, skipBlanks_newLine]

theorem member_newLine (v : Scan Datum) (layout : Layout) (depth : Nat) (cs : List Char) :
    member v (layout.newLine depth ++ cs) = member v cs := by
  rw [member, member, name_newLine]

theorem member_of_value {v : Scan Datum} {cs rest : List Char} {d : Datum} (s : String) (layout : Layout)
    (h : ∀ bs, (∀ b ∈ bs, isBlank b = true) → v (bs ++ cs) = some (d, rest)) :
    member v (writeText s.toList ++ layout.colon ++ cs) = some ((s, d), rest) := by
  rw [member, List.append_assoc, name_writeText, Option.bind_some]
  cases layout with
  | pretty =>
      have hv := h [' '] (by simp [isBlank])
      simp only [Layout.colon, List.cons_append, List.nil_append] at hv ⊢
      rw [skipBlanks_cons rfl]
      exact congrArg (Option.map _) hv
  | compact =>
      have hv := h [] (by simp)
      simp only [Layout.colon, List.cons_append, List.nil_append] at hv ⊢
      rw [skipBlanks_cons rfl]
      exact congrArg (Option.map _) hv

theorem furtherItems_close {α : Type} (item : Scan α) {closing : Char} (hb : isBlank closing = false)
    (layout : Layout) (depth fuel : Nat) (rest : List Char) :
    furtherItems item closing (fuel + 1) (layout.newLine depth ++ closing :: rest) = some ([], rest) := by
  rw [furtherItems, skipBlanks_newLine, skipBlanks_cons hb]
  exact if_pos rfl

theorem furtherItems_comma {α : Type} {item : Scan α} {closing : Char} (hc : closing ≠ ',') {fuel : Nat}
    {cs cs' rest : List Char} {a : α} {as : List α} (h : item cs = some (a, cs'))
    (hs : furtherItems item closing fuel cs' = some (as, rest)) :
    furtherItems item closing (fuel + 1) (',' :: cs) = some (a :: as, rest) := by
  rw [furtherItems, skipBlanks_cons rfl]
  simp only [hc.symm, if_false, if_true, h, Option.bind_some, hs, Option.map_some]

theorem enclosed_first {α : Type} {item : Scan α} {closing : Char} {fuel : Nat} {cs cs' rest : List Char} {a : α}
    {as : List α} {c : Char} (hc : cs.head? = some c) (hb : isBlank c = false) (hn : c ≠ closing)
    (layout : Layout) (depth : Nat) (h : item cs = some (a, cs'))
    (hs : furtherItems item closing fuel cs' = some (as, rest)) :
    enclosed item closing fuel (layout.newLine depth ++ cs) = some (a :: as, rest) := by
  cases cs with
  | nil => cases hc
  | cons d cs =>
      cases hc
      rw [enclosed, skipBlanks_newLine, skipBlanks_cons hb]
      simp only [hn, if_false, h, Option.bind_some, hs, Option.map_some]

theorem endsNumber_closing {closing : Char}
    (h : isDigit closing = false ∧ closing ≠ '.' ∧ closing ≠ 'e' ∧ closing ≠ 'E')
    (layout : Layout) (depth : Nat) (rest : List Char) : EndsNumber (layout.newLine depth ++ closing :: rest) := by
  cases layout with
  | pretty => exact endsNumber_cons (by decide) _
  | compact => exact endsNumber_cons h _

theorem endsNumber_writeItems (layout : Layout) (depth : Nat) (js : List Json) (rest : List Char) :
    EndsNumber (write.writeItems layout (depth + 1) js ++ (layout.newLine depth ++ ']' :: rest)) := by
  cases js with
  | nil => exact endsNumber_closing (by decide) layout depth rest
  | cons j js => exact endsNumber_cons (by decide) _

theorem endsNumber_writeMembers (layout : Layout) (depth : Nat) (ms : List (String × Json)) (rest : List Char) :
    EndsNumber (write.writeMembers layout (depth + 1) ms ++ (layout.newLine depth ++ '\x7d' :: rest)) := by
  cases ms with
  | nil => exact endsNumber_closing (by decide) layout depth rest
  | cons m ms => exact endsNumber_cons (by decide) _

end Reader

def isNumber : Json → Bool
  | .integer _ => true
  | .float _ => true
  | _ => false

theorem head_writeFloat (x : Number.Binary64) :
    ∃ c cs, writeFloat x = c :: cs ∧ Reader.isBlank c = false ∧ c ≠ ']' := by
  cases x with
  | finite negative m q =>
      obtain ⟨n, ht, -⟩ := Number.Binary64.text_finite negative m q
      obtain ⟨c, cs, hm, hd⟩ := Reader.head_magnitude n
      have hb : Reader.isBlank c = false ∧ c ≠ ']' := Reader.notBlank_of_isDigit hd
      change ∃ c cs, (Number.Binary64.finite negative m q).text = c :: cs ∧ _
      rw [← ht, Numeral.text]
      split
      · exact ⟨'-', _, rfl, rfl, by decide⟩
      · exact ⟨c, cs, hm, hb⟩
  | infinite negative => cases negative <;> exact ⟨_, _, rfl, rfl, by decide⟩
  | nan => exact ⟨_, _, rfl, rfl, by decide⟩

theorem head_write (layout : Layout) (depth : Nat) (j : Json) :
    ∃ c cs, write layout depth j = c :: cs ∧ Reader.isBlank c = false ∧ c ≠ ']' := by
  cases j with
  | null => exact ⟨_, _, rfl, rfl, by decide⟩
  | flag b => cases b <;> exact ⟨_, _, rfl, rfl, by decide⟩
  | integer i =>
      rw [write, ← Numeral.text_ofInteger, Numeral.text]
      obtain ⟨c, cs, hm, hd⟩ := Reader.head_magnitude (Numeral.ofInteger i)
      split
      · exact ⟨'-', _, rfl, rfl, by decide⟩
      · exact ⟨c, cs, hm, Reader.notBlank_of_isDigit hd⟩
  | float x => exact head_writeFloat x
  | text s => exact ⟨_, _, rfl, rfl, by decide⟩
  | array items => cases items <;> exact ⟨_, _, rfl, rfl, by decide⟩
  | object members => cases members <;> exact ⟨_, _, rfl, rfl, by decide⟩

section Values

open Reader

mutual

theorem value_write : ∀ (j : Json) (layout : Layout) (depth fuel : Nat) (rest : List Char),
    (write layout depth j).length < fuel → (j.isNumber = true → EndsNumber rest) →
      value fuel (write layout depth j ++ rest) = some (j.datum, rest)
  | _, _, _, 0, _, hf, _ => absurd hf (Nat.not_lt_zero _)
  | .null, _, _, _ + 1, _, _, _ => rfl
  | .flag true, _, _, _ + 1, _, _, _ => rfl
  | .flag false, _, _, _ + 1, _, _, _ => rfl
  | .integer i, _, _, fuel + 1, _, _, he => value_signedDecimal i (he rfl) fuel
  | .float x, _, _, fuel + 1, _, _, he => value_writeFloat x (he rfl) fuel
  | .text s, _, _, fuel + 1, rest, _, _ => value_writeText s fuel rest
  | .array [], _, _, fuel + 1, rest, hf, _ => by
      cases fuel with
      | zero => simp [write] at hf
      | succ fuel => rfl
  | .array (j :: js), layout, depth, fuel + 1, rest, hf, _ => by
      simp only [write, List.length_cons, List.length_append, List.length_nil] at hf
      have hj := value_write j layout (depth + 1) fuel
        (write.writeItems layout (depth + 1) js ++ (layout.newLine depth ++ ']' :: rest)) (by omega)
        fun _ => endsNumber_writeItems layout depth js rest
      have hjs := furtherItems_writeItems js layout depth fuel fuel rest (by omega) (by omega)
      obtain ⟨c, cs, hc, hb, hn⟩ := head_write layout (depth + 1) j
      have hi := enclosed_first (c := c) (by rw [hc]; rfl) hb hn layout (depth + 1) hj hjs
      simp only [write, List.cons_append, List.append_assoc, List.nil_append]
      rw [value, skipBlanks_cons rfl]
      simp only [hi, Option.map_some, datum, datum.ofItems]
  | .object [], _, _, fuel + 1, rest, hf, _ => by
      cases fuel with
      | zero => simp [write] at hf
      | succ fuel => rfl
  | .object ((s, j) :: ms), layout, depth, fuel + 1, rest, hf, _ => by
      simp only [write, List.length_cons, List.length_append, List.length_nil] at hf
      have hj := value_write j layout (depth + 1) fuel
        (write.writeMembers layout (depth + 1) ms ++ (layout.newLine depth ++ '\x7d' :: rest)) (by omega)
        fun _ => endsNumber_writeMembers layout depth ms rest
      have hm := member_of_value s layout fun bs hbs => (value_append hbs fuel _).trans hj
      have hms := furtherItems_writeMembers ms layout depth fuel fuel rest (by omega) (by omega)
      have hi := enclosed_first (c := '"') rfl rfl (by decide) layout (depth + 1) hm hms
      simp only [write, List.cons_append, List.append_assoc, List.nil_append] at hi ⊢
      rw [value, skipBlanks_cons rfl]
      simp only [hi, Option.map_some, datum, datum.ofMembers]

theorem furtherItems_writeItems : ∀ (js : List Json) (layout : Layout) (depth fuel items : Nat) (rest : List Char),
    (write.writeItems layout (depth + 1) js).length < fuel → (write.writeItems layout (depth + 1) js).length < items →
      furtherItems (value fuel) ']' items
        (write.writeItems layout (depth + 1) js ++ (layout.newLine depth ++ ']' :: rest)) =
        some (datum.ofItems js, rest)
  | _, _, _, _, 0, _, _, hi => absurd hi (Nat.not_lt_zero _)
  | [], layout, depth, _, items + 1, rest, _, _ => furtherItems_close _ rfl layout depth items rest
  | j :: js, layout, depth, fuel, items + 1, rest, hf, hi => by
      simp only [write.writeItems, List.length_cons, List.length_append] at hf hi
      have hj := value_write j layout (depth + 1) fuel
        (write.writeItems layout (depth + 1) js ++ (layout.newLine depth ++ ']' :: rest)) (by omega)
        fun _ => endsNumber_writeItems layout depth js rest
      have hjs := furtherItems_writeItems js layout depth fuel items rest (by omega) (by omega)
      simp only [write.writeItems, List.cons_append, List.append_assoc]
      exact furtherItems_comma (by decide) ((value_newLine layout (depth + 1) fuel _).trans hj) hjs

theorem furtherItems_writeMembers : ∀ (ms : List (String × Json)) (layout : Layout) (depth fuel items : Nat)
    (rest : List Char), (write.writeMembers layout (depth + 1) ms).length < fuel →
      (write.writeMembers layout (depth + 1) ms).length < items →
      furtherItems (member (value fuel)) '\x7d' items
        (write.writeMembers layout (depth + 1) ms ++ (layout.newLine depth ++ '\x7d' :: rest)) =
        some (datum.ofMembers ms, rest)
  | _, _, _, _, 0, _, _, hi => absurd hi (Nat.not_lt_zero _)
  | [], layout, depth, _, items + 1, rest, _, _ => furtherItems_close _ rfl layout depth items rest
  | (s, j) :: ms, layout, depth, fuel, items + 1, rest, hf, hi => by
      simp only [write.writeMembers, List.length_cons, List.length_append] at hf hi
      have hj := value_write j layout (depth + 1) fuel
        (write.writeMembers layout (depth + 1) ms ++ (layout.newLine depth ++ '\x7d' :: rest)) (by omega)
        fun _ => endsNumber_writeMembers layout depth ms rest
      have hm := member_of_value s layout fun bs hbs => (value_append hbs fuel _).trans hj
      have hn : member (value fuel) (layout.newLine (depth + 1) ++ (writeText s.toList ++ layout.colon ++
          (write layout (depth + 1) j ++ (write.writeMembers layout (depth + 1) ms ++
            (layout.newLine depth ++ '\x7d' :: rest))))) = _ :=
        (member_newLine _ layout (depth + 1) _).trans hm
      have hms := furtherItems_writeMembers ms layout depth fuel items rest (by omega) (by omega)
      simp only [write.writeMembers, List.cons_append, List.append_assoc] at hn ⊢
      exact furtherItems_comma (by decide) hn hms

end

end Values

theorem read_write (layout : Layout) (depth : Nat) {j : Json} {rest : List Char}
    (h : j.isNumber = true → Reader.EndsNumber rest) :
    read (write layout depth j ++ rest) = some (j.datum, rest) :=
  value_write j layout depth _ rest (by rw [List.length_append]; omega) h

end ProtoBundle.Json
