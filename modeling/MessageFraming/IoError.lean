/-!
# Input and output errors

An I/O error has a kind, a message, and the messages of the errors behind it, nearest first. Only
one kind matters to the library itself: an interrupted call is made again.
-/

namespace MessageFraming

inductive ErrorKind where
  | notFound
  | permissionDenied
  | connectionRefused
  | connectionReset
  | hostUnreachable
  | networkUnreachable
  | connectionAborted
  | notConnected
  | addrInUse
  | addrNotAvailable
  | networkDown
  | brokenPipe
  | alreadyExists
  | wouldBlock
  | notADirectory
  | isADirectory
  | directoryNotEmpty
  | readOnlyFilesystem
  | staleNetworkFileHandle
  | invalidInput
  | invalidData
  | timedOut
  | writeZero
  | storageFull
  | notSeekable
  | quotaExceeded
  | fileTooLarge
  | resourceBusy
  | executableFileBusy
  | deadlock
  | crossesDevices
  | tooManyLinks
  | invalidFilename
  | argumentListTooLong
  | interrupted
  | unsupported
  | unexpectedEof
  | outOfMemory
  | other
deriving Repr, DecidableEq

namespace ErrorKind

/-- The kind's name in logs. -/
def name : ErrorKind → String
  | notFound => "NotFound"
  | permissionDenied => "PermissionDenied"
  | connectionRefused => "ConnectionRefused"
  | connectionReset => "ConnectionReset"
  | hostUnreachable => "HostUnreachable"
  | networkUnreachable => "NetworkUnreachable"
  | connectionAborted => "ConnectionAborted"
  | notConnected => "NotConnected"
  | addrInUse => "AddrInUse"
  | addrNotAvailable => "AddrNotAvailable"
  | networkDown => "NetworkDown"
  | brokenPipe => "BrokenPipe"
  | alreadyExists => "AlreadyExists"
  | wouldBlock => "WouldBlock"
  | notADirectory => "NotADirectory"
  | isADirectory => "IsADirectory"
  | directoryNotEmpty => "DirectoryNotEmpty"
  | readOnlyFilesystem => "ReadOnlyFilesystem"
  | staleNetworkFileHandle => "StaleNetworkFileHandle"
  | invalidInput => "InvalidInput"
  | invalidData => "InvalidData"
  | timedOut => "TimedOut"
  | writeZero => "WriteZero"
  | storageFull => "StorageFull"
  | notSeekable => "NotSeekable"
  | quotaExceeded => "QuotaExceeded"
  | fileTooLarge => "FileTooLarge"
  | resourceBusy => "ResourceBusy"
  | executableFileBusy => "ExecutableFileBusy"
  | deadlock => "Deadlock"
  | crossesDevices => "CrossesDevices"
  | tooManyLinks => "TooManyLinks"
  | invalidFilename => "InvalidFilename"
  | argumentListTooLong => "ArgumentListTooLong"
  | interrupted => "Interrupted"
  | unsupported => "Unsupported"
  | unexpectedEof => "UnexpectedEof"
  | outOfMemory => "OutOfMemory"
  | other => "Other"

def all : List ErrorKind :=
  [.notFound, .permissionDenied, .connectionRefused, .connectionReset, .hostUnreachable,
   .networkUnreachable, .connectionAborted, .notConnected, .addrInUse, .addrNotAvailable,
   .networkDown, .brokenPipe, .alreadyExists, .wouldBlock, .notADirectory, .isADirectory,
   .directoryNotEmpty, .readOnlyFilesystem, .staleNetworkFileHandle, .invalidInput,
   .invalidData, .timedOut, .writeZero, .storageFull, .notSeekable, .quotaExceeded,
   .fileTooLarge, .resourceBusy, .executableFileBusy, .deadlock, .crossesDevices,
   .tooManyLinks, .invalidFilename, .argumentListTooLong, .interrupted, .unsupported,
   .unexpectedEof, .outOfMemory, .other]

/-- The kind of that name. -/
def ofName? (word : String) : Option ErrorKind := all.find? fun kind => kind.name == word

end ErrorKind

structure IoError where
  kind : ErrorKind
  message : String
  /-- Messages of the errors behind this one, nearest first. -/
  causes : List String
deriving Repr, DecidableEq

namespace IoError

/-- An error with nothing behind it. -/
def plain (kind : ErrorKind) (message : String) : IoError := ⟨kind, message, []⟩

/-- An interrupted call has had no effect and is made again. -/
def isInterrupted (e : IoError) : Bool := e.kind == .interrupted

/-- The messages found by following an error that wraps this one. -/
def trail (e : IoError) : List String := e.message :: e.causes

end IoError

end MessageFraming
