import ProtoBundle.Source.Tree

/-!
The rules of the schema language as productions, and the derivations they allow. A derivation yields lexemes
and the trees that are made of them: a rule makes a node, a word leaves no trace, and an optional part that is
absent leaves a mark for each child it would have had.
-/

namespace ProtoBundle.Source

inductive Ebnf where
  | terminal (t : Terminal)
  | rule (c : Construct)
  /-- A sequence that has a name of its own, as an alternative of a rule may have. -/
  | named (c : Construct) (es : List Ebnf)
  | all (es : List Ebnf)
  | any (es : List Ebnf)
  | optional (es : List Ebnf)
  | many (es : List Ebnf)

def Terminal.isWord : Terminal → Bool
  | .word _ => true
  | _ => false

mutual

/-- How many children of a node stand for the item at most. -/
def Ebnf.width : Ebnf → Nat
  | .terminal t => if t.isWord then 0 else 1
  | .rule _ => 1
  | .named _ _ => 1
  | .all es => total es
  | .any es => widest es
  | .optional es => total es
  | .many _ => 0

def Ebnf.total : List Ebnf → Nat
  | [] => 0
  | e :: es => e.width + total es

def Ebnf.widest : List Ebnf → Nat
  | [] => 0
  | e :: es => max e.width (widest es)

end

namespace Ebnf

def word (w : String) : Ebnf := .terminal (.word w)

/-- Of these rules a tree shows nothing but the one alternative that is taken. -/
def statement : Ebnf :=
  .any [.rule .dialectStatement, .rule .packageStatement, .rule .importStatement, .rule .optionStatement,
    .rule .message, .rule .enum, .rule .service, .rule .emptyStatement]

def messageItem : Ebnf :=
  .any [.rule .field, .rule .mapField, .rule .oneof, .rule .message, .rule .enum, .rule .optionStatement,
    .rule .reserved, .rule .extensions, .rule .emptyStatement]

def oneofItem : Ebnf := .any [.rule .oneofField, .rule .optionStatement, .rule .emptyStatement]

def reservedItem : Ebnf := .any [.rule .idRange, .terminal .quoted]

def enumItem : Ebnf := .any [.rule .enumValue, .rule .optionStatement, .rule .reserved, .rule .emptyStatement]

def serviceItem : Ebnf := .any [.rule .rpc, .rule .optionStatement, .rule .emptyStatement]

def serviceOption : Ebnf := .any [.rule .optionStatement, .rule .emptyStatement]

def constant : Ebnf :=
  .any [.named .floatConstant [.terminal .float], .named .nameConstant [.terminal .special],
    .named .integerConstant [.terminal .signedInteger], .named .quotedConstant [.terminal .quoted],
    .named .nameConstant [.terminal .dottedName]]

def numbered (number : Terminal) : List Ebnf :=
  [word "=", .terminal number, .optional [.rule .settings], word ";"]

def block (opening : String) (item : Ebnf) : List Ebnf :=
  [word opening, .terminal .identifier, word "\x7b", .many [item], word "\x7d"]

def separated (e : Ebnf) : List Ebnf := [e, .many [word ",", e]]

def rpcType : List Ebnf := [word "(", .optional [.terminal .stream], .terminal .typeName, word ")"]

/-- The production of each rule. What only names alternatives has none. -/
def production : Construct → Option (List Ebnf)
  | .file => some [.many [statement]]
  | .emptyStatement => some [word ";"]
  | .dialectStatement => some [word "syntax", word "=", .terminal .quoted, word ";"]
  | .packageStatement => some [word "package", .terminal .dottedName, word ";"]
  | .importStatement => some [word "import", .optional [.terminal .importKind], .terminal .quoted, word ";"]
  | .optionStatement => some [word "option", .terminal .optionName, word "=", constant, word ";"]
  | .message => some (block "message" messageItem)
  | .field =>
      some ([.optional [.terminal .label], .terminal .typeName, .terminal .identifier] ++ numbered .integer)
  | .mapField =>
      some ([word "map", word "<", .terminal .typeName, word ",", .terminal .typeName, word ">",
        .terminal .identifier] ++ numbered .integer)
  | .settings => some ([word "["] ++ separated (.rule .setting) ++ [word "]"])
  | .setting => some [.terminal .optionName, word "=", constant]
  | .oneof => some (block "oneof" oneofItem)
  | .oneofField => some ([.terminal .typeName, .terminal .identifier] ++ numbered .integer)
  | .reserved => some ([word "reserved"] ++ separated reservedItem ++ [word ";"])
  | .extensions => some [word "extensions", .rule .idRange, .optional [.rule .settings], word ";"]
  | .idRange =>
      some [.terminal .integer, .optional [word "to", .any [.terminal .integer, .terminal .maximum]]]
  | .enum => some (block "enum" enumItem)
  | .enumValue => some ([.terminal .identifier] ++ numbered .signedInteger)
  | .service => some (block "service" serviceItem)
  | .rpc =>
      some ([word "rpc", .terminal .identifier] ++ rpcType ++ [word "returns"] ++ rpcType ++ [.rule .rpcBody])
  | .rpcBody => some [.any [word ";", .all [word "\x7b", .many [serviceOption], word "\x7d"]]]
  | .floatConstant | .nameConstant | .integerConstant | .quotedConstant => none

end Ebnf

def Terminal.kept (t : Terminal) (l : Lexeme) : List Tree := if t.isWord then [] else [.token t l]

inductive Derives : Ebnf → List (Terminal × Lexeme) → List Tree → Prop
  | terminal (t : Terminal) (l : Lexeme) : Derives (.terminal t) [(t, l)] (t.kept l)
  | rule {es ls ts} {c : Construct} (hp : Ebnf.production c = some es) (h : Derives (.all es) ls ts) :
      Derives (.rule c) ls [.node c ts]
  | named {es ls ts} (c : Construct) (h : Derives (.all es) ls ts) : Derives (.named c es) ls [.node c ts]
  | nil : Derives (.all []) [] []
  | cons {e es ls ks ts us} (h : Derives e ls ts) (hs : Derives (.all es) ks us) :
      Derives (.all (e :: es)) (ls ++ ks) (ts ++ us)
  | any {e es ls ts} (he : e ∈ es) (h : Derives e ls ts) : Derives (.any es) ls ts
  | present {es ls ts} (h : Derives (.all es) ls ts) : Derives (.optional es) ls ts
  | absent (es : List Ebnf) : Derives (.optional es) [] (List.replicate (Ebnf.total es) .absent)
  | again {es ls ks ts us} (h : Derives (.all es) ls ts) (hs : Derives (.many es) ks us) :
      Derives (.many es) (ls ++ ks) (ts ++ us)
  | stop (es : List Ebnf) : Derives (.many es) [] []

section Sequences

variable {e : Ebnf} {es fs : List Ebnf} {ls ks : List (Terminal × Lexeme)} {ts us : List Tree}

theorem derives_single_iff : Derives (.all [e]) ls ts ↔ Derives e ls ts := by
  constructor
  · intro h
    cases h with
    | cons h hs =>
        cases hs
        rwa [List.append_nil, List.append_nil]
  · intro h
    have hs := h.cons .nil
    rwa [List.append_nil, List.append_nil] at hs

theorem Derives.append (h : Derives (.all es) ls ts) (hs : Derives (.all fs) ks us) :
    Derives (.all (es ++ fs)) (ls ++ ks) (ts ++ us) := by
  induction es generalizing ls ts with
  | nil =>
      cases h
      exact hs
  | cons e es ih =>
      cases h with
      | cons h ht =>
          rw [List.append_assoc, List.append_assoc]
          exact h.cons (ih ht)

theorem Derives.of_append (h : Derives (.all (es ++ fs)) ls ts) :
    ∃ ls' ks' ts' us', ls = ls' ++ ks' ∧ ts = ts' ++ us' ∧ Derives (.all es) ls' ts' ∧ Derives (.all fs) ks' us' := by
  induction es generalizing ls ts with
  | nil => exact ⟨[], ls, [], ts, rfl, rfl, .nil, h⟩
  | cons e es ih =>
      cases h with
      | cons h ht =>
          obtain ⟨ls', ks', ts', us', rfl, rfl, ht, hs⟩ := ih ht
          exact ⟨_, ks', _, us', (List.append_assoc ..).symm, (List.append_assoc ..).symm, h.cons ht, hs⟩

end Sequences

section Tokens

theorem flatMap_tokens_kept (t : Terminal) (l : Lexeme) :
    (t.kept l).flatMap Tree.tokens = [(t, l)].filter fun s => !s.1.isWord := by
  unfold Terminal.kept
  cases h : t.isWord
  · simp [Tree.tokens, h]
  · simp [h]

theorem Tree.tokens_subset_of_mem {t : Tree} {children : List Tree} (h : t ∈ children) (construct : Construct) :
    t.tokens ⊆ (Tree.node construct children).tokens := by
  intro s hs
  rw [Tree.tokens, Tree.tokensOfAll_eq_flatMap]
  exact List.mem_flatMap.mpr ⟨t, h, hs⟩

theorem Derives.tokens {e : Ebnf} {ls : List (Terminal × Lexeme)} {ts : List Tree} (h : Derives e ls ts) :
    ts.flatMap Tree.tokens = ls.filter fun s => !s.1.isWord := by
  induction h with
  | terminal t l => exact flatMap_tokens_kept t l
  | rule _ _ ih => rwa [List.flatMap_singleton, Tree.tokens, Tree.tokensOfAll_eq_flatMap]
  | named c _ ih => rwa [List.flatMap_singleton, Tree.tokens, Tree.tokensOfAll_eq_flatMap]
  | nil => rfl
  | cons _ _ ih ihs => rw [List.flatMap_append, List.filter_append, ih, ihs]
  | any _ _ ih => exact ih
  | present _ ih => exact ih
  | absent es =>
      rw [List.flatMap_replicate]
      simp [Tree.tokens]
  | again _ _ ih ihs => rw [List.flatMap_append, List.filter_append, ih, ihs]
  | stop => rfl

end Tokens

section Productive

variable {e : Ebnf} {es fs : List Ebnf}

def Ebnf.Productive (e : Ebnf) : Prop := ∀ ts, ¬ Derives e [] ts

theorem Ebnf.productive_terminal (t : Terminal) : (Ebnf.terminal t).Productive := fun _ h => nomatch h

theorem Ebnf.productive_any (h : ∀ e ∈ es, e.Productive) : (Ebnf.any es).Productive := by
  intro ts hd
  cases hd with
  | any he hd => exact h _ he _ hd

theorem Ebnf.Productive.head (h : e.Productive) (es : List Ebnf) : (Ebnf.all (e :: es)).Productive := by
  intro ts hd
  generalize hl : [] = ls at hd
  cases hd with
  | cons hd _ =>
      obtain ⟨rfl, rfl⟩ := List.append_eq_nil_iff.mp hl.symm
      exact h _ hd

theorem Ebnf.Productive.tail (h : (Ebnf.all es).Productive) (e : Ebnf) : (Ebnf.all (e :: es)).Productive := by
  intro ts hd
  generalize hl : [] = ls at hd
  cases hd with
  | cons _ hd =>
      obtain ⟨rfl, rfl⟩ := List.append_eq_nil_iff.mp hl.symm
      exact h _ hd

theorem Ebnf.productive_rule {c : Construct} (hc : c ≠ .file) : (Ebnf.rule c).Productive := by
  intro ts hd
  cases hd with
  | @rule es _ _ _ hp hd =>
      have h : (Ebnf.all es).Productive := by
        cases c with
        | file => exact absurd rfl hc
        | floatConstant | nameConstant | integerConstant | quotedConstant => cases hp
        | field =>
            cases hp
            exact ((productive_terminal _).head _).tail _
        | rpcBody =>
            cases hp
            refine Productive.head (productive_any ?_) _
            simp only [List.forall_mem_cons]
            exact ⟨productive_terminal _, (productive_terminal _).head _, fun _ h => absurd h List.not_mem_nil⟩
        | _ =>
            cases hp
            exact (productive_terminal _).head _
      exact h _ hd

def Ebnf.startsLexeme : Ebnf → Bool
  | .terminal _ => true
  | .rule c => c != .file
  | _ => false

theorem Ebnf.productive_of_startsLexeme (h : es.all startsLexeme = true) : (Ebnf.any es).Productive := by
  refine productive_any fun e he => ?_
  have hs := List.all_eq_true.mp h e he
  cases e with
  | terminal t => exact productive_terminal t
  | rule c => exact productive_rule (bne_iff_ne.mp hs)
  | _ => cases hs

end Productive

end ProtoBundle.Source
