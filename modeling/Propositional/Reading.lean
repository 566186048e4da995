import Propositional.Formula.Outline
import Propositional.Grammar
import Propositional.Record

/-!
# Reading with records

What `Propositional.tokenize` and `Propositional.parse` answer, together with what they record:
every item as it is met, up to the first stray character, then the number of tokens if there was
none, then the outline of the formula if the tokens form one.
-/

namespace Propositional

open Text

/-- The record that an item has been met. -/
def Item.record : Item → Record
  | token t => ⟨.trace, .lexer, s!"{t.kind.describe} {quoted t.text} at {t.position}"⟩
  | stray s => ⟨.trace, .lexer, s!"Tokenizer stopped: {s.message}"⟩

/-- The items that are met until the first stray character, which is the last of them. -/
def upToStray : List Item → List Item
  | [] => []
  | .token t :: rest => .token t :: upToStray rest
  | .stray s :: _ => [.stray s]

/-- The items of a text, each with its record. -/
def itemsLogged (mode : LexMode) (text : String) : Logged (List Item) :=
  let found := items mode text
  ⟨found, found.map Item.record⟩

/-- The record that a whole text has been cut into tokens. -/
def tokenizedRecord (text : String) (count : Nat) : Record :=
  ⟨.trace, .lexer, s!"Tokenized {quoted text} into {count} tokens"⟩

/-- The tokens of a text, or the first character that belongs to none, with the records. -/
def tokenizeLogged (mode : LexMode) (text : String) : Logged (Except StrayCharacter (List Token)) :=
  let found := items mode text
  let met := (upToStray found).map Item.record
  match tokensOfItems found with
  | .error s => ⟨.error s, met⟩
  | .ok tokens => ⟨.ok tokens, met ++ [tokenizedRecord text tokens.length]⟩

@[simp] theorem value_tokenizeLogged (mode : LexMode) (text : String) :
    (tokenizeLogged mode text).value = tokenize mode text := by
  simp only [tokenizeLogged, tokenize]
  cases tokensOfItems (items mode text) <;> rfl

/-- The record that a text has been read as a formula. -/
def parsedRecord (text : String) (t : Formula) : Record :=
  ⟨.trace, .parser, s!"Parsed {quoted text} into {t.outline}"⟩

/-- The formula that a text spells, or what is wrong with it, with the records. -/
def parseLogged (mode : LexMode) (text : String) : Logged (Except Fault Formula) :=
  (tokenizeLogged mode text).bind fun
    | .error s => .silent (.error (.lexical s))
    | .ok tokens =>
      match parseTokens tokens with
      | .error g => .silent (.error (.grammatical g))
      | .ok t => ⟨.ok t, [parsedRecord text t]⟩

@[simp] theorem value_parseLogged (mode : LexMode) (text : String) :
    (parseLogged mode text).value = parse mode text := by
  unfold parseLogged parse
  rw [Logged.value_bind, value_tokenizeLogged]
  cases tokenize mode text with
  | error => rfl
  | ok tokens =>
    cases h : parseTokens tokens with
    | error g =>
      simp only [h]
      rfl
    | ok t =>
      simp only [h]
      rfl

end Propositional
