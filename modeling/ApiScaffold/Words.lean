import ApiScaffold.Text.Classes

/-!
# The words of a name and its spellings

A name in any spelling (`BlogPost`, `blog_posts`, `user-API2`) is cut into words:
a capital and the small letters after it, a run of capitals, a run of small letters or
a run of digits. The other characters, all of them beyond ASCII among them, only
separate. `studly`, `camel` and `human` rejoin the words. `snake` does not use them: it
puts separators into the raw name, so that the two views of a name can be compared.
-/
namespace ApiScaffold.Words

open Text

/-- Whether a word that reaches `c` goes on with `d`, when `next` is the character after `d`.
A capital before a small letter opens a word of its own. -/
def continues (c d : Char) (next : Option Char) : Bool :=
  (isAsciiLower c && isAsciiLower d) || (isAsciiDigit c && isAsciiDigit d) ||
    (isAsciiUpper c && isAsciiLower d) ||
    (isAsciiUpper c && isAsciiUpper d && !next.any isAsciiLower)

/-- The words of a name, in lower case. -/
def words : Text → List Text
  | [] => []
  | c :: cs =>
    if isAsciiAlnum c then
      match cs, words cs with
      | d :: rest, word :: more =>
        if continues c d rest.head? then (lowerAscii c :: word) :: more
        else [lowerAscii c] :: word :: more
      | _, more => [lowerAscii c] :: more
    else words cs

def capitalize : Text → Text
  | [] => []
  | c :: cs => upperAscii c :: cs

/-- Every word capitalised and none separated: `PostStatus`. -/
def studly (name : Text) : Text := ((words name).map capitalize).flatten

/-- As `studly`, but the first word stays in lower case: `postStatus`. -/
def camel (name : Text) : Text :=
  match words name with
  | [] => []
  | word :: more => word ++ (more.map capitalize).flatten

/-- The capitalised words with a space between them: `Post Status`. -/
def human (name : Text) : Text := join " " ((words name).map capitalize)

/-- Puts an underscore between two neighbours wherever the rule, which also sees the
character after them, asks for one. -/
def underscoreBetween (rule : Char → Char → Option Char → Bool) : Text → Text
  | c :: d :: rest =>
    if rule c d rest.head? then c :: '_' :: underscoreBetween rule (d :: rest)
    else c :: underscoreBetween rule (d :: rest)
  | short => short

/-- The last capital of a run belongs to the small letters after it. -/
def endsAcronym (c d : Char) (next : Option Char) : Bool :=
  isAsciiUpper c && isAsciiUpper d && next.any isAsciiLower

def risesToCapital (c d : Char) (_next : Option Char) : Bool :=
  (isAsciiLower c || isAsciiDigit c) && isAsciiUpper d

/-- Leaves one underscore of every run. -/
def squeeze : Text → Text
  | '_' :: '_' :: rest => squeeze ('_' :: rest)
  | c :: rest => c :: squeeze rest
  | [] => []

/-- Lower case with single underscores inside: `post_status`. -/
def snake (name : Text) : Text :=
  let marked := underscoreBetween risesToCapital (underscoreBetween endsAcronym name)
  let plain := marked.map fun c => if isAsciiAlnum c then c else '_'
  (stripChar '_' (squeeze plain)).map lowerAscii

end ApiScaffold.Words
