import ApiScaffold.Draft.Error
import ApiScaffold.Files.Tree
import ApiScaffold.Schema.Checked
import ApiScaffold.Stub.Repository

/-!
# Failures

Everything that can end an operation early. A draft that is missing or malformed is the
user's to mend; the other failures come from the system, from a file that is no text, or from
a value that was misused.
-/
namespace ApiScaffold

open Text

inductive Failure where
  | missingDraft (path : Text)
  | draft (e : DraftError)
  | issues (found : List Issue)
  | misuse (m : Misuse)
  | system (e : SystemError)
  | undecodable (e : DecodeError)
  | missingStub (message : Text)
  deriving Repr

namespace Failure

def ofRefusal : Refusal → Failure
  | .issues found => issues found
  | .misuse m => misuse m

def ofRead : Stub.ReadError → Failure
  | .system e => system e
  | .undecodable e => undecodable e

def message : Failure → Text
  | missingDraft path => "Draft file not found: " ++ path
  | draft e => e.message
  | issues _ => "..."
  | misuse m => m.message
  | system e => e.message
  | undecodable e => e.message
  | missingStub message => message

end Failure


end ApiScaffold
