/-!
# Sources

What reading a file can give.  A file that cannot be opened is missing, whatever
the reason.  A path that opens but cannot be read, as a directory does, gives no
bytes and has no end: each read fails, and so does the next one.  All else is a
list of bytes.

A fault has a kind, by which faults are compared, and may have a text of its
own.  Without one it is shown by the description of its kind.
-/

namespace SentenceGuide

/-- The kinds of faults in reading, in the order of their names. -/
inductive ReadFault.Kind where
  | addrInUse
  | addrNotAvailable
  | alreadyExists
  | argumentListTooLong
  | brokenPipe
  | connectionAborted
  | connectionRefused
  | connectionReset
  | crossesDevices
  | deadlock
  | directoryNotEmpty
  | executableFileBusy
  | fileTooLarge
  | hostUnreachable
  | interrupted
  | invalidData
  | invalidFilename
  | invalidInput
  | isADirectory
  | networkDown
  | networkUnreachable
  | notADirectory
  | notConnected
  | notFound
  | notSeekable
  | other
  | outOfMemory
  | permissionDenied
  | quotaExceeded
  | readOnlyFilesystem
  | resourceBusy
  | staleNetworkFileHandle
  | storageFull
  | timedOut
  | tooManyLinks
  | unexpectedEof
  | unsupported
  | wouldBlock
  | writeZero
  deriving DecidableEq, Repr

/-- The kind in words. -/
def ReadFault.Kind.description : ReadFault.Kind → String
  | addrInUse => "address in use"
  | addrNotAvailable => "address not available"
  | alreadyExists => "entity already exists"
  | argumentListTooLong => "argument list too long"
  | brokenPipe => "broken pipe"
  | connectionAborted => "connection aborted"
  | connectionRefused => "connection refused"
  | connectionReset => "connection reset"
  | crossesDevices => "cross-device link or rename"
  | deadlock => "deadlock"
  | directoryNotEmpty => "directory not empty"
  | executableFileBusy => "executable file busy"
  | fileTooLarge => "file too large"
  | hostUnreachable => "host unreachable"
  | interrupted => "operation interrupted"
  | invalidData => "invalid data"
  | invalidFilename => "invalid filename"
  | invalidInput => "invalid input parameter"
  | isADirectory => "is a directory"
  | networkDown => "network down"
  | networkUnreachable => "network unreachable"
  | notADirectory => "not a directory"
  | notConnected => "not connected"
  | notFound => "entity not found"
  | notSeekable => "seek on unseekable file"
  | other => "other error"
  | outOfMemory => "out of memory"
  | permissionDenied => "permission denied"
  | quotaExceeded => "quota exceeded"
  | readOnlyFilesystem => "read-only filesystem or storage medium"
  | resourceBusy => "resource busy"
  | staleNetworkFileHandle => "stale network file handle"
  | storageFull => "no storage space"
  | timedOut => "timed out"
  | tooManyLinks => "too many links"
  | unexpectedEof => "unexpected end of file"
  | unsupported => "unsupported"
  | wouldBlock => "operation would block"
  | writeZero => "write zero"

/-- A fault in reading. -/
structure ReadFault where
  /-- What went wrong. -/
  kind : ReadFault.Kind
  /-- A text of its own, if it has one. -/
  text : Option String
  deriving DecidableEq, Repr

namespace ReadFault

/-- The fault in words. -/
def message (fault : ReadFault) : String := fault.text.getD fault.kind.description

/-- Nothing has this name. -/
def noSuchFile : ReadFault := ⟨.notFound, some "No such file or directory (os error 2)"⟩

/-- The file may not be read. -/
def permissionDenied : ReadFault :=
  ⟨.permissionDenied, some "Permission denied (os error 13)"⟩

/-- A part of the path that should be a directory is a file. -/
def notDirectory : ReadFault := ⟨.notADirectory, some "Not a directory (os error 20)"⟩

/-- A directory was read as if it were a file. -/
def directory : ReadFault := ⟨.isADirectory, some "Is a directory (os error 21)"⟩

/-- No path can hold the character zero. -/
def zeroInPath : ReadFault :=
  ⟨.invalidInput, some "file name contained an unexpected NUL byte"⟩

/-- A name in a path, or the path, is too long. -/
def nameTooLong : ReadFault := ⟨.invalidFilename, some "File name too long (os error 36)"⟩

/-- Some bytes do not spell a text. -/
def notUtf8 : ReadFault := ⟨.invalidData, some "stream did not contain valid UTF-8"⟩

end ReadFault

/-- What a path holds. -/
inductive Source where
  /-- It cannot be opened. -/
  | missing (fault : ReadFault)
  /-- It can be opened, but each read fails.  This is not said of a read that was
  interrupted, which is made again. -/
  | unreadable (fault : ReadFault)
  /-- It can be read to its end. -/
  | bytes (content : List UInt8)
  deriving DecidableEq, Repr

end SentenceGuide
