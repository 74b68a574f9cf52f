import ProtoBundle.Source.Rules
import ProtoBundle.Text.Place

/-!
Reading a whole text as a schema file. The tree of a text is its preferred reading that leaves nothing but
layout. A text without one is rejected at the furthest place that a reading reaches, or at its end.
-/

namespace ProtoBundle.Source

open Text

def messageAt : (depth : Nat) → Cursor → Reading Message
  | 0, _ => []
  | depth + 1, c => Rules.message.run (messageAt depth) c

def messageReach : (depth : Nat) → Cursor → Nat
  | 0, c => c.offset
  | depth + 1, c => Rules.message.reach (messageAt depth) (messageReach depth) c

/-- The readings of a text, each with what it leaves. A message takes characters of its own, so no text nests
them deeper than it is long. -/
@[irreducible] def readings (text : List Char) : Reading File :=
  Rules.file.run (messageAt text.length) (.start text)

def complete? (text : List Char) : Option File :=
  ((readings text).find? fun r => r.2.skip.rest.isEmpty).map Prod.fst

@[irreducible] def reach (text : List Char) : Nat :=
  Rules.file.reach (messageAt text.length) (messageReach text.length) (.start text)

inductive ParseFault where
  | endOfText
  | character (found : Char) (place : Place)
  deriving DecidableEq, Repr

/-- Where reading gives up, `reach` being the furthest place that a reading reaches: the first place behind it
that no piece of layout jumps over. Layout is looked for at every place, inside of strings and comments too. -/
def stoppingPlace (reach : Nat) : (place pending : Nat) → List Char → Nat
  | place, _, [] => place
  | place, pending, c :: cs =>
      if reach < place ∧ pending ≤ place then place
      else stoppingPlace reach (place + 1) (max pending (place + layoutLength (c :: cs))) cs

def faultOf (text : List Char) : ParseFault :=
  let k := stoppingPlace (reach text) 0 0 text - 1
  match text[k]? with
  | some c => if reach text = text.length then .endOfText else .character c (placeAt text k)
  | none => .endOfText

def parse (text : List Char) : Except ParseFault File :=
  match complete? text with
  | some file => .ok file
  | none => .error (faultOf text)

end ProtoBundle.Source
