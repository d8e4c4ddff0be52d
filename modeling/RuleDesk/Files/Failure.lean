/-!
# Failures of files and outputs

What can go wrong when a file is opened, read or written, or when text is sent
to an output, with the wording of the operating system.
-/
namespace RuleDesk

inductive IoFailure where
  | noSuchFile
  | isDirectory
  | notDirectory
  | nameTooLong
  | deviceFull
  /-- A path holds a character that ends path texts. -/
  | nulInPath
  /-- Bytes that should be UTF-8 are not. -/
  | notText
  /-- The reader of an output has gone. -/
  | closed
  | other (message : String)
deriving Repr, DecidableEq, Inhabited

def IoFailure.message : IoFailure → String
  | noSuchFile => "No such file or directory (os error 2)"
  | isDirectory => "Is a directory (os error 21)"
  | notDirectory => "Not a directory (os error 20)"
  | nameTooLong => "File name too long (os error 36)"
  | deviceFull => "No space left on device (os error 28)"
  | nulInPath => "file name contained an unexpected NUL byte"
  | notText => "stream did not contain valid UTF-8"
  | closed => "closed"
  | other text => text

/-- The failure that an error number of the operating system stands for. -/
def IoFailure.ofCode (code : Nat) (description : String) : IoFailure :=
  match code with
  | 2 => noSuchFile
  | 20 => notDirectory
  | 21 => isDirectory
  | 28 => deviceFull
  | 36 => nameTooLong
  | _ => other s!"{description} (os error {code})"

end RuleDesk
