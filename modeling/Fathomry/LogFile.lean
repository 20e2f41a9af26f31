import Fathomry.Failure
import Fathomry.Machine
import Fathomry.Padded
import Mathlib.Data.Char
import Mathlib.Data.List.AList
import Mathlib.Data.List.Lex
import Mathlib.Data.List.Sort

/-!
# A log file that rotates

`rotatingFile` of `internal/logging/zap/v1/file_linux.go`: records are
appended to `current.log`; before it gets too long it becomes an archive with
the next sequence number, which may be compressed, and the oldest archives go.
Each of these steps is a system call, or a few that change nothing, and each
may fail. The first failure seals the file.

The machine is a directory together with the process that has it open. A step is
one system call of the process and what it returns (`call`), a piece of a record
reaching the file (`append`), the end of a compression (`copied`), or a call
from outside. A process can be gone at any time (`crash`), and the directory is
opened again as it was left. A call that fails has changed nothing – but for a
write, of which any piece may have reached the file.

Files are what the process reads of them: their content, and whether their
metadata are in order (`sound`). Compression is a pair of functions that are
inverse to each other. Sizes are far below the range of their type, since
`MaxFileBytes` is at most 64 MiB.
-/

namespace LogFile

variable {ε : Type}

abbrev Bytes := List UInt8

/-! ## Errors -/

inductive Kind where
  | limit
  | state
  | file
deriving DecidableEq

inductive Cause (ε : Type) where
  | shortWrite
  /-- What a system call returns. -/
  | system (err : ε)

abbrev Err (ε : Type) := Fault Kind Unit (Cause ε)

def failure (kind : Kind) (operation : String) (causes : List (Option (Err ε))) : Err ε :=
  .new kind operation "" () causes

/-! ## Directories -/

/-- **The name of a file.** Archives are `archive-%020d.log`, and with `.gz`
when they are compressed; a compression in progress has `.gz.tmp`. -/
inductive Name where
  | current
  | archive (sequence : ℕ) (compressed : Bool)
  | temporary (sequence : ℕ)
  | other (name : String)
deriving DecidableEq

namespace Name

def isArchive : Name → Bool
  | archive _ _ => true
  | _ => false

def sequence : Name → ℕ
  | archive n _ => n
  | _ => 0

def key : Name → ℕ
  | archive n compressed => 2 * n + compressed.toNat
  | _ => 0

def text : Name → List Char
  | current => "current.log".toList
  | archive n compressed =>
    "archive-".toList ++ (padded 20 n ++ if compressed then ".log.gz".toList else ".log".toList)
  | temporary n => "archive-".toList ++ (padded 20 n ++ ".log.gz.tmp".toList)
  | other name => name.toList

end Name

/-- A file: its content, and whether it is regular, private and has one
link. -/
structure File where
  content : Bytes
  sound : Bool
deriving DecidableEq

abbrev Directory := AList (fun _ : Name => File)

namespace Directory

variable (d : Directory)

def archives : List Name :=
  (d.keys.filter Name.isArchive).mergeSort (fun m n => m.key ≤ n.key)

/-- `Renameat2` with `RENAME_NOREPLACE`, where it succeeds. -/
def rename (source target : Name) : Option Directory :=
  match d.lookup source, d.lookup target with
  | some file, none => some ((d.erase source).insert target file)
  | _, _ => none

/-- `Openat` with `O_CREAT|O_EXCL`, where it succeeds. -/
def create (name : Name) : Option Directory :=
  match d.lookup name with
  | none => some (d.insert name ⟨[], true⟩)
  | some _ => none

/-- `Unlinkat`, where it succeeds. -/
def remove (name : Name) : Option Directory :=
  match d.lookup name with
  | some _ => some (d.erase name)
  | none => none

/-- `Openat` of a file that is there. -/
def openAt (name : Name) : Option Directory :=
  match d.lookup name with
  | some _ => some d
  | none => none

end Directory

/-- `gzip`, with its inverse. -/
structure Codec where
  gzip : Bytes → Bytes
  gunzip : Bytes → Option Bytes
  gunzip_gzip : ∀ content, gunzip (gzip content) = some content

def Codec.decode (codec : Codec) : Name → Bytes → Bytes
  | .archive _ true, content => (codec.gunzip content).getD []
  | _, content => content

def Directory.textOf (d : Directory) (codec : Codec) (name : Name) : Bytes :=
  ((d.lookup name).map (fun file => codec.decode name file.content)).getD []

/-- **The directory in sequence order**: archives by sequence, then
`current.log`. -/
def Directory.contents (d : Directory) (codec : Codec) : List Bytes :=
  (d.archives ++ d.keys.filter (· = .current)).map (d.textOf codec)

def compressedLimit (size : ℕ) : ℕ := size + size / 100 + 65536

/-! ## Options -/

/-- `outputSettings`, as validated. -/
structure Options where
  maxFileBytes : ℕ
  maxBackups : ℕ
  compress : Bool
  bytes_le : maxFileBytes ≤ 64 * 2 ^ 20
  backups_pos : 1 ≤ maxBackups

namespace Options

variable (options : Options)

/-- The sequence number of an archive the process may have made. -/
def parse : Name → Option ℕ
  | .archive n compressed =>
    if compressed = options.compress ∧ 0 < n ∧ n ≤ maxUint64 then some n else none
  | _ => none

def maximum : Name → ℕ
  | .current => options.maxFileBytes
  | _ => if options.compress then compressedLimit options.maxFileBytes else options.maxFileBytes

/-- What `openRotatingFile` asks of a file. -/
def inspectFile (name : Name) (file : File) : Option (Err ε) :=
  if name ≠ .current ∧ options.parse name = none then some (failure .state "directory-content" [])
  else if file.sound = false ∨ options.maximum name < file.content.length then
    Fault.joined [some (failure .state "file-metadata" [])]
  else if name = .current ∧ file.content ≠ [] ∧ file.content.getLast? ≠ some 10 then
    Fault.joined [some (failure .state "incomplete-record" [])]
  else none

/-- **What `openRotatingFile` makes of a directory**: the archives, sorted by
name. -/
def inspect (d : Directory) : Except (Err ε) (List Name) :=
  if options.maxBackups + 1 < d.entries.length then .error (failure .limit "directory-entries" [])
  else
    match d.entries.findSome? (fun x => options.inspectFile x.1 x.2) with
    | some err => .error err
    | none =>
      if options.maxBackups < (d.keys.filter (· ≠ .current)).length then
        .error (failure .limit "archives" [])
      else .ok ((d.keys.filter (· ≠ .current)).mergeSort (fun m n => m.text ≤ n.text))

end Options

/-! ## The process -/

/-- Where a process is: the system call it is in. -/
inductive Stage where
  /-- It opens or creates `current.log`. -/
  | creating (present : Bool)
  /-- It asks for its size. -/
  | measuring (present : Bool)
  | announcing
  | idle
  /-- `rotate`: it syncs and closes the file, and makes it an archive. -/
  | syncing
  | closing
  | shifting
  | shifted
  /-- `compress`: it opens both files, copies, syncs and closes them. -/
  | opening
  | exclusive
  | copying
  | flushing
  | releasing
  /-- It publishes the compressed archive, and removes the other one. -/
  | publishing
  | published
  | discarding
  | discarded
  | removing
  | removed
  | recreating
  | recreated
  /-- So much of the record has been written. -/
  | writing (count : ℕ)
deriving DecidableEq

/-- **`rotatingFile`**, and the record it is writing. -/
structure Process (ε : Type) where
  options : Options
  size : ℕ
  sequence : ℕ
  archives : List Name
  failed : Option (Err ε)
  closed : Bool
  data : Bytes
  stage : Stage

namespace Process

variable (p : Process ε)

def goto (stage : Stage) : Process ε := { p with stage := stage }

def poison (err : Err ε) : Process ε :=
  { p with
    failed := p.failed.or (some (failure .file "maintenance-or-write" [some err]))
    stage := .idle }

def raw : Name := .archive p.sequence false

def packed : Name := .archive p.sequence true

def retain : Process ε :=
  p.goto (if p.options.maxBackups < p.archives.length then .removing else .recreating)

def archived (name : Name) : Process ε := { p with archives := p.archives ++ [name] }.retain

/-- **`Write`**, up to its first system call. -/
def write (data : Bytes) : Process ε :=
  if p.closed ∨ p.failed.isSome ∨ p.options.maxFileBytes < data.length then p
  else if p.options.maxFileBytes < p.size + data.length then
    if p.sequence = maxUint64 then p.poison (failure .limit "archive-sequence" [])
    else { p with data := data, stage := .syncing }
  else { p with data := data, stage := .writing 0 }

/-- **`Write`, when the file has returned.** -/
def wrote (count : ℕ) (err : Option (Err ε)) : Process ε :=
  match err.or (if count ≠ p.data.length then some (.native .shortWrite) else none) with
  | some err => { p with size := p.size + count }.poison err
  | none => { p with size := p.size + count, stage := .idle }

def sync (err : Option (Err ε)) : Process ε :=
  match err with
  | some err => if p.closed ∨ p.failed.isSome then p else p.poison err
  | none => p

end Process

/-- **The directory, and the process that has it open.** -/
structure State (ε : Type) where
  dir : Directory
  process : Option (Process ε)

namespace State

variable (codec : Codec) (s : State ε)

def become (p : Process ε) (d : Directory) : State ε := ⟨d, some p⟩

def currentSize : ℕ := ((s.dir.lookup .current).map (fun f => f.content.length)).getD 0

/-- **A system call that succeeds.** Where it cannot, there is no step. -/
def succeed (p : Process ε) : Option (State ε) :=
  match p.stage with
  | .creating true => (s.dir.openAt .current).map (become (p.goto (.measuring true)))
  | .creating false => (s.dir.create .current).map (become (p.goto (.measuring false)))
  | .measuring present =>
    some (become { p with
      size := s.currentSize
      stage := if present then .idle else .announcing } s.dir)
  | .announcing => some (become (p.goto .idle) s.dir)
  | .idle => none
  | .syncing => some (become (p.goto .closing) s.dir)
  | .closing =>
    some (become { p with sequence := increment p.sequence, stage := .shifting } s.dir)
  | .shifting => (s.dir.rename .current p.raw).map (become (p.goto .shifted))
  | .shifted =>
    some (become (if p.options.compress then p.goto .opening else p.archived p.raw) s.dir)
  | .opening => (s.dir.openAt p.raw).map (become (p.goto .exclusive))
  | .exclusive => (s.dir.create (.temporary p.sequence)).map (become (p.goto .copying))
  | .copying => none
  | .flushing => some (become (p.goto .releasing) s.dir)
  | .releasing => some (become (p.goto .publishing) s.dir)
  | .publishing =>
    (s.dir.rename (.temporary p.sequence) p.packed).map (become (p.goto .published))
  | .published => some (become (p.goto .discarding) s.dir)
  | .discarding => (s.dir.remove p.raw).map (become (p.goto .discarded))
  | .discarded => some (become (p.archived p.packed) s.dir)
  | .removing =>
    match p.archives with
    | [] => none
    | name :: rest =>
      (s.dir.remove name).map (become { p with archives := rest, stage := .removed })
  | .removed => some (become p.retain s.dir)
  | .recreating =>
    (s.dir.create .current).map (become { p with size := 0, stage := .recreated })
  | .recreated => some (become (p.goto (.writing 0)) s.dir)
  | .writing count => some (become (p.wrote count none) s.dir)

/-- **A system call that fails.** While the directory is being opened that is
the end of the process. -/
def fail (p : Process ε) (err : Err ε) : Option (State ε) :=
  match p.stage with
  | .creating _ | .measuring _ | .announcing => some ⟨s.dir, none⟩
  | .idle | .copying => none
  | .writing count => some (become (p.wrote count (some err)) s.dir)
  | _ => some (become (p.poison err) s.dir)

/-- **`compressGZIP` returns.** It copies all of a file that is not too long,
or fails after any number of bytes. -/
def copied (p : Process ε) (bytes : Bytes) (err : Option (Err ε)) : Option (State ε) :=
  match err, s.dir.lookup p.raw with
  | some err, _ =>
    some (become (p.poison err) (s.dir.insert (.temporary p.sequence) ⟨bytes, true⟩))
  | none, some file =>
    if file.content.length ≤ p.options.maxFileBytes
        ∧ (codec.gzip file.content).length ≤ compressedLimit p.options.maxFileBytes then
      some (become (p.goto .flushing)
        (s.dir.insert (.temporary p.sequence) ⟨codec.gzip file.content, true⟩))
    else none
  | none, none => none

def append (p : Process ε) (count n : ℕ) : Option (State ε) :=
  match s.dir.lookup .current with
  | some file =>
    if count + n ≤ p.data.length then
      some (become (p.goto (.writing (count + n))) (s.dir.insert .current
        { file with content := file.content ++ (p.data.drop count).take n }))
    else none
  | none => none

/-- `openRotatingFile`, up to the first system call that changes anything. -/
def start (options : Options) : State ε :=
  match (options.inspect s.dir : Except (Err ε) (List Name)) with
  | .error _ => ⟨s.dir, none⟩
  | .ok archives =>
    ⟨s.dir, some {
      options := options
      size := 0
      sequence := (archives.map Name.sequence).foldl max 0
      archives := archives
      failed := none
      closed := false
      data := []
      stage := .creating (s.dir.lookup .current).isSome }⟩

end State

/-- **What happens.** -/
inductive Event (ε : Type) where
  /-- A process opens the directory; reading it may fail. -/
  | start (options : Options) (err : Option ε)
  | write (data : Bytes)
  /-- The system call the process is in returns. -/
  | call (err : Option ε)
  | append (n : ℕ)
  | copied (bytes : Bytes) (err : Option (Err ε))
  | sync (err : Option ε)
  | close
  | crash

namespace State

variable (codec : Codec) (s : State ε)

def systemErr (err : ε) : Err ε := .native (.system err)

def enter (f : Process ε → Process ε) : Option (State ε) :=
  match s.process with
  | some p => if p.stage = .idle then some ⟨s.dir, some (f p)⟩ else none
  | none => none

/-- **The step of the machine.** -/
def step : Event ε → Option (State ε)
  | .start options err =>
    if s.process.all (fun p => p.closed) then
      some (if err.isSome then ⟨s.dir, none⟩ else s.start options)
    else none
  | .write data => s.enter (·.write data)
  | .call err =>
    match s.process, err with
    | some p, none => s.succeed p
    | some p, some err => s.fail p (systemErr err)
    | none, _ => none
  | .append n =>
    match s.process with
    | some p =>
      match p.stage with
      | .writing count => s.append p count n
      | _ => none
    | none => none
  | .copied bytes err =>
    match s.process with
    | some p => if p.stage = .copying then s.copied codec p bytes err else none
    | none => none
  | .sync err => s.enter (·.sync (err.map systemErr))
  | .close => s.enter (fun p => { p with closed := true })
  | .crash => some ⟨s.dir, none⟩

/-- **The machine**, from any directory. -/
def machine (d : Directory) : Machine (State ε) (Event ε) := ⟨⟨d, none⟩, fun s l => s.step codec l⟩

/-! ## What a run has done -/

/-- The record a step accepts: `Write` returns its length and no error. -/
def accepted : Event ε → List Bytes
  | .call none =>
    match s.process with
    | some p => if p.stage = .writing p.data.length then [p.data] else []
    | none => []
  | _ => []

def retired : Event ε → List Name
  | .call none =>
    match s.process with
    | some p => if p.stage = .removing then p.archives.take 1 else []
    | none => []
  | _ => []

def numbered : Event ε → List ℕ
  | .call none =>
    match s.process with
    | some p => if p.stage = .shifting then [p.sequence] else []
    | none => []
  | _ => []

end State

end LogFile
