import Mantids.Memory.Find
import Mantids.Protocols.MimeMessage

/-! Local files for a requested URI (`httpv1_server.cpp`), on a file system that answers
`realpath`, `stat` and `access`. -/

set_option autoImplicit false

namespace Mantids.HTTP

open Memory MIME

/-- A canonical absolute path: what `realpath` returns. -/
structure CanonicalPath where
  names : List Bytes
  valid : ∀ name ∈ names, name ≠ [] ∧ 47 ∉ name ∧ 0 ∉ name ∧ name ≠ [46] ∧ name ≠ [46, 46]

def CanonicalPath.bytes (path : CanonicalPath) : Bytes :=
  if path.names = [] then [47] else path.names.flatMap fun name => 47 :: name

/-- A failed call can leave anything in the buffer it is given. -/
inductive Realpath where
  | resolved (path : CanonicalPath) (errno : Nat)
  | failed (errno : Nat) (buffer : Bytes)

namespace Realpath

def ENOENT : Nat := 2

def errno : Realpath → Nat
  | resolved _ errno => errno
  | failed errno _ => errno

def buffer : Realpath → Bytes
  | resolved path _ => path.bytes
  | failed _ buffer => cString buffer

end Realpath

/-- `struct stat`. -/
structure FileStatus where
  isDir : Bool
  isReg : Bool
  mtime : Nat

/-- `stat` comes with what its structure holds afterwards, also where it fails. -/
structure FileSystem where
  realpath : Bytes → Realpath
  stat : Bytes → Bool × FileStatus
  readable : Bytes → Bool
  executable : Bytes → Bool
  referenceFile : Bytes → Bool

/-- `sLocalRequestedFileInfo`, as `reset` leaves it. -/
structure LocalRequestedFileInfo where
  sRealRelativePath : Bytes := []
  sRealFullPath : Bytes := []
  isDir : Bool := false
  isExecutable : Bool := false
  isTransversal : Bool := false
  pathExist : Bool := false
  deriving DecidableEq

inductive DataStreamer where
  | staticContent (content : Bytes)
  | file (path : Bytes)
  deriving DecidableEq

/-- The options that the file functions set. -/
structure CacheControl where
  optionNoCache : Bool
  optionNoStore : Bool
  optionMustRevalidate : Bool
  optionImmutable : Bool
  maxAge : Nat
  deriving DecidableEq

structure ServerResponse where
  dataStreamer : Option DataStreamer
  contentType : Bytes
  bNoSniffContentType : Bool
  cacheControl : CacheControl
  lastModified : List Nat
  deriving DecidableEq

/-- What the file functions use of the server, with the URI of its request. -/
structure FileServer where
  uri : Bytes
  staticContentElements : Bytes → Option Bytes
  mimeTypes : Bytes → Option Bytes
  includeServerDate : Bool
  currentFileExtension : Bytes
  serverResponse : ServerResponse

/-- A slash at the end, if there is none yet. -/
def withSlash (path : Bytes) : Bytes := if path.getLast? = some 47 then path else path ++ [47]

/-- The server directory behind its real path. -/
def realServerDir (files : FileSystem) (sServerDir : Bytes) : Option Bytes :=
  match files.realpath (cString sServerDir) with
  | .resolved path _ => some (withSlash path.bytes)
  | .failed _ _ => none

/-- The check for a transversal access. -/
def isTransversal (sServerDir sFullComputedPath : Bytes) : Bool :=
  sFullComputedPath.length < sServerDir.length || sFullComputedPath.take sServerDir.length ≠ sServerDir

/-- What is behind the server directory, from its slash on. -/
def relativePath (sServerDir sFullComputedPath : Bytes) : Bytes := sFullComputedPath.drop (sServerDir.length - 1)

namespace FileServer

/-- `strrchr` of the dot. -/
def fileExtension (sFilePath : Bytes) : Option Bytes :=
  let path := cString sFilePath
  if 46 ∈ path then some (46 :: (path.reverse.takeWhile (· ≠ 46)).reverse) else none

def setResponseContentTypeByFileExtension (server : FileServer) (sFilePath : Bytes) : FileServer :=
  match fileExtension sFilePath with
  | none | some [46] => server
  | some cFileExtension =>
    let currentFileExtension := cFileExtension.map BChunks.tolower
    let (contentType, bNoSniff) :=
      match server.mimeTypes currentFileExtension with
      | some contentType => (contentType, true)
      | none => ([], false)
    { server with
      currentFileExtension
      serverResponse := { server.serverResponse with contentType, bNoSniffContentType := bNoSniff } }

def setDataStreamer (server : FileServer) (streamer : DataStreamer) : FileServer :=
  { server with serverResponse := { server.serverResponse with dataStreamer := some streamer } }

/-- The answer can be kept for an hour. -/
def setCached (server : FileServer) : FileServer :=
  { server with serverResponse := { server.serverResponse with cacheControl := ⟨false, false, false, true, 3600⟩ } }

def addLastModified (server : FileServer) (status : Bool × FileStatus) : FileServer :=
  if status.1 ∧ server.includeServerDate then
    { server with
      serverResponse := { server.serverResponse with
        lastModified := server.serverResponse.lastModified ++ [status.2.mtime] } }
  else server

@[simp] theorem dataStreamer_setDataStreamer (server : FileServer) (streamer : DataStreamer) :
    (server.setDataStreamer streamer).serverResponse.dataStreamer = some streamer := rfl

@[simp] theorem dataStreamer_setCached (server : FileServer) :
    server.setCached.serverResponse.dataStreamer = server.serverResponse.dataStreamer := rfl

@[simp] theorem dataStreamer_setResponseContentTypeByFileExtension (server : FileServer) (sFilePath : Bytes) :
    (server.setResponseContentTypeByFileExtension sFilePath).serverResponse.dataStreamer =
      server.serverResponse.dataStreamer := by
  unfold setResponseContentTypeByFileExtension
  split <;> rfl

@[simp] theorem dataStreamer_addLastModified (server : FileServer) (status : Bool × FileStatus) :
    (server.addLastModified status).serverResponse.dataStreamer = server.serverResponse.dataStreamer := by
  unfold addLastModified
  split <;> rfl

def getLocalFilePathFromURI2 (files : FileSystem) (server : FileServer) (sServerDir defaultFileAppend : Bytes)
    (dontMapExecutables : Bool) : Bool × LocalRequestedFileInfo × FileServer :=
  let info : LocalRequestedFileInfo := {}
  match realServerDir files sServerDir with
  | none => (false, info, server)
  | some sServerDir =>
    let sFullRequestedPath := sServerDir ++ server.uri.drop 1 ++ defaultFileAppend
    match server.staticContentElements (server.uri ++ defaultFileAppend) with
    | some content =>
      let sRealRelativePath := server.uri ++ defaultFileAppend
      (true, { info with sRealRelativePath, sRealFullPath := ascii "MEM:" ++ sRealRelativePath },
        (server.setCached.setResponseContentTypeByFileExtension sRealRelativePath).setDataStreamer
          (.staticContent content))
    | none =>
      match files.realpath (cString sFullRequestedPath) with
      | .failed _ _ => (false, info, server)
      | .resolved path _ =>
        let (_, stats) := files.stat path.bytes
        let sFullComputedPath := if stats.isDir then withSlash path.bytes else path.bytes
        let info := { info with isDir := stats.isDir }
        if isTransversal sServerDir sFullComputedPath then (false, { info with isTransversal := true }, server)
        else
          let info := { info with pathExist := stats.isDir || stats.isReg }
          let found := { info with
            sRealFullPath := sFullComputedPath
            sRealRelativePath := relativePath sServerDir sFullComputedPath }
          if stats.isDir then
            if defaultFileAppend ≠ [] then (false, info, server)
            else (files.readable sFullComputedPath, found, server)
          else if stats.isReg then
            if dontMapExecutables ∧ files.executable sFullComputedPath then
              (true, { found with isExecutable := true }, server)
            else if files.referenceFile sFullComputedPath then
              let server := server.setDataStreamer (.file sFullComputedPath)
              let server := server.setResponseContentTypeByFileExtension found.sRealRelativePath
              (true, found, (server.addLastModified (files.stat (cString sFullRequestedPath))).setCached)
            else (false, info, server)
          else (false, info, server)

end FileServer

/-- For a file that does not exist. -/
def getLocalFilePathFromURI0NE (files : FileSystem) (uri sServerDir : Bytes) : Bool × LocalRequestedFileInfo :=
  let info : LocalRequestedFileInfo := {}
  match realServerDir files sServerDir with
  | none => (false, info)
  | some sServerDir =>
    let sFullRequestedPath := sServerDir ++ uri.drop 1
    let real := files.realpath (cString sFullRequestedPath)
    if real.errno = Realpath.ENOENT then
      if isTransversal sServerDir real.buffer then (false, { info with isTransversal := true })
      else
        (true, { info with sRealFullPath := real.buffer, sRealRelativePath := relativePath sServerDir real.buffer })
    else (false, info)

/-- For a file that exists. -/
def getLocalFilePathFromURI0E (files : FileSystem) (uri sServerDir : Bytes) : Bool × LocalRequestedFileInfo :=
  let info : LocalRequestedFileInfo := {}
  match realServerDir files sServerDir with
  | none => (false, info)
  | some sServerDir =>
    let sFullRequestedPath := sServerDir ++ uri.drop 1
    match files.realpath (cString sFullRequestedPath) with
    | .failed _ _ => (false, info)
    | .resolved path _ =>
      let (_, stats) := files.stat path.bytes
      let sFullComputedRealPath := if stats.isDir then withSlash path.bytes else path.bytes
      let info := { info with isDir := stats.isDir }
      if isTransversal sServerDir sFullComputedRealPath then (false, { info with isTransversal := true })
      else
        (true, { info with
          sRealFullPath := sFullComputedRealPath
          sRealRelativePath := relativePath sServerDir sFullComputedRealPath })

end Mantids.HTTP
