/-!
# Why a file cannot be used

The causes for which a file is not read, written or run, in the words of the system.
-/

namespace WitnessReplay

/-- Why a file cannot be used. -/
inductive FileError
  | notFound
  | notPermitted
  | notDirectory
  | isDirectory
  | notExecutable
  /-- A name of more than 255 bytes, or a path of 4096. -/
  | nameTooLong
  /-- A chain of programs that are started to run one another, which is too long. -/
  | tooManyLinks
  | noDevice
  | noSpace
  /-- A text was to be read, and the bytes are not UTF-8. -/
  | notText
  /-- The name of a command or an argument has a zero byte. -/
  | zeroByte
deriving DecidableEq, Repr

/-- The wording of the cause, with the number of the system error where there is one. -/
def FileError.message : FileError → String
  | notFound => "No such file or directory (os error 2)"
  | notPermitted => "Permission denied (os error 13)"
  | notDirectory => "Not a directory (os error 20)"
  | isDirectory => "Is a directory (os error 21)"
  | notExecutable => "Exec format error (os error 8)"
  | nameTooLong => "File name too long (os error 36)"
  | tooManyLinks => "Too many levels of symbolic links (os error 40)"
  | noDevice => "No such device or address (os error 6)"
  | noSpace => "No space left on device (os error 28)"
  | notText => "stream did not contain valid UTF-8"
  | zeroByte => "nul byte found in provided data"

end WitnessReplay
