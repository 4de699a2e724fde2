/-
`Shared.lean` -- one reader for each choice of delimiters.

Readers are built once and kept. A declaration that was seen before is found by its
handle, so it is not checked again; an equal one made elsewhere is found by the key
of its grammar.
-/
import PromptTemplate.Grammar.Declared

set_option autoImplicit false

namespace PromptTemplate

/-- What is known of the readers: the declarations seen, by handle, and the grammar
of each reader. A reader is known by its number. -/
structure SharedReaders where
  seen : List (Nat × Nat)
  grammars : List Grammar

namespace SharedReaders

/-- No reader built yet. -/
def empty : SharedReaders := ⟨[], []⟩

/-- The number of the reader whose grammar has this key. -/
def numberOfKey? (readers : SharedReaders) (key : Text) : Option Nat :=
  readers.grammars.findIdx? fun g => g.key = key

/-- The reader for a declaration, built when there is none for its grammar. A
declaration that is refused leaves everything as it is. -/
def get (readers : SharedReaders) (handle : Nat) (declaration : GrammarDeclaration) :
    Except ConfigurationError Nat × SharedReaders :=
  match readers.seen.lookup handle with
  | some number => (.ok number, readers)
  | none =>
    match Grammar.load declaration with
    | .error error => (.error error, readers)
    | .ok g =>
      match readers.numberOfKey? g.key with
      | some number => (.ok number, ⟨(handle, number) :: readers.seen, readers.grammars⟩)
      | none =>
        let number := readers.grammars.length
        (.ok number, ⟨(handle, number) :: readers.seen, readers.grammars ++ [g]⟩)

end SharedReaders

end PromptTemplate
