import BnfReader.Grammar.Layers
import BnfReader.Log.Basic

/-! Grammars read under a log: each reading leaves a remark on how it ended. -/
namespace BnfReader

/-- The remark on a reading; a fault leaves none. -/
def remark? : Except (Rejection Invalid) Document → Option String
  | .ok d => some ("Parsed grammar with " ++ toString d.rules.length ++ " rules")
  | .error (.failure f) => some ("Grammar rejected: " ++ f.message)
  | .error (.fault _) => none

/-- A text read, with the remark written to the log: the disk afterwards, what was printed,
and the outcome. -/
def Log.readGrammar (log : Log) (disk : Disk) (time text : String) :
    Disk × String × Except (Rejection Invalid) Document :=
  let outcome := Document.parse text
  match remark? outcome with
  | some message =>
    let (disk, printed) := log.write disk time ⟨"bnfparse.grammar.parser", Level.debug, message⟩
    (disk, printed, outcome)
  | none => (disk, "", outcome)

end BnfReader
