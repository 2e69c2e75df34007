/-!
# Errors of the file system

The causes for which reading, writing or moving a file can fail, with the numbered texts that Linux
gives them. A file that should be text and is not is an error of the same rank.
-/

namespace RefPages

/-- Why an operation on files failed. -/
inductive DiskError where
  | notFound
  | busy
  | alreadyExists
  | notDirectory
  | isDirectory
  | nameTooLong
  | invalidText
deriving DecidableEq, Repr

def DiskError.message : DiskError → String
  | .notFound => "No such file or directory (os error 2)"
  | .busy => "Device or resource busy (os error 16)"
  | .alreadyExists => "File exists (os error 17)"
  | .notDirectory => "Not a directory (os error 20)"
  | .isDirectory => "Is a directory (os error 21)"
  | .nameTooLong => "File name too long (os error 36)"
  | .invalidText => "stream did not contain valid UTF-8"

end RefPages
