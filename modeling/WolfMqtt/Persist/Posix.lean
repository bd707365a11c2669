import Mathlib.Data.List.AList
import WolfMqtt.Lib.Crash
import WolfMqtt.Packet.Types

/-! The POSIX storage backend: `mqtt_broker_persist_posix.c`.

A record is a file: the directory of its namespace, the hex digits of its key and `.bin`.
The file system is a parameter in two ways. What each call answers, and at which one a
crash cuts the program off, is a script; in which order a directory is listed is a
`Listing`. A crash keeps every completed call but what was written and not yet synced. -/
namespace WolfMqtt.Persist.Posix

/-! ### Names -/

abbrev Name := List Char

def hexDigits : List Char :=
  ['0', '1', '2', '3', '4', '5', '6', '7', '8', '9', 'a', 'b', 'c', 'd', 'e', 'f']

def hexDigit (n : Nat) : Char := hexDigits.getD n '0'

/-- `wmqb_hex_encode` -/
def hexEncode : Bytes → Name
  | [] => []
  | b :: bs => hexDigit (b.toNat / 16) :: hexDigit (b.toNat % 16) :: hexEncode bs

def hexValue (c : Char) : Option Nat :=
  if '0' ≤ c ∧ c ≤ '9' then some (c.toNat - '0'.toNat)
  else if 'a' ≤ c ∧ c ≤ 'f' then some (10 + c.toNat - 'a'.toNat)
  else if 'A' ≤ c ∧ c ≤ 'F' then some (10 + c.toNat - 'A'.toNat)
  else none

def hexPairs : Name → Option Bytes
  | [] => some []
  | [_] => none
  | hi :: lo :: rest => do
    let h ← hexValue hi
    let l ← hexValue lo
    return UInt8.ofNat (h * 16 + l) :: (← hexPairs rest)

/-- `sizeof(key_buf)`, and the longest key `wmqb_rec_name` takes -/
def keyMax : Nat := 256

/-- `wmqb_hex_decode` -/
def hexDecode (digits : Name) : Option Bytes :=
  if digits.length > 0xFFFF then none
  else if digits.length % 2 ≠ 0 ∨ digits.length / 2 > keyMax then none
  else hexPairs digits

def dotBin : Name := ['.', 'b', 'i', 'n']
def dotTmp : Name := ['.', 't', 'm', 'p']

/-- `wmqb_rec_name` of a key that is not too long -/
def recName (key : Bytes) : Name := hexEncode key ++ dotBin

def tmpName (key : Bytes) : Name := recName key ++ dotTmp

/-- The longest name of the file system. -/
def nameMax : Nat := 255

/-! ### The file system -/

structure File where
  data : Bytes := []
  regular : Bool := true
  owned : Bool := true
  nlink : Nat := 1
  /-- `S_IWGRP | S_IWOTH` -/
  othersWrite : Bool := false
  /-- Nothing was written since the last `fsync`. -/
  synced : Bool := false
deriving DecidableEq

structure Dir where
  files : AList (fun _ : Name => File) := ∅
  owned : Bool := true
  othersWrite : Bool := false

/-- The directories under the root, by namespace. -/
abbrev Fs := UInt8 → Option Dir

def freshFs : Fs := fun _ => none

def Fs.file (fs : Fs) (ns : UInt8) (name : Name) : Option File := (fs ns).bind fun d => d.files.lookup name

def Fs.setFiles (fs : Fs) (ns : UInt8) (f : AList (fun _ : Name => File) → AList (fun _ : Name => File)) : Fs :=
  Function.update fs ns ((fs ns).map fun d => { d with files := f d.files })

/-- A change of one file, where there is one of that name. -/
def Fs.setFile (fs : Fs) (ns : UInt8) (name : Name) (f : File → File) : Fs :=
  match fs.file ns name with
  | some file => fs.setFiles ns (·.insert name (f file))
  | none => fs

/-- What a crash leaves of a file. -/
def File.lose (lost : Bytes → Bytes) (f : File) : File := if f.synced then f else { f with data := lost f.data }

def Dir.lose (lost : Bytes → Bytes) (d : Dir) : Dir where
  files :=
    { entries := d.files.entries.map fun e => ⟨e.1, e.2.lose lost⟩
      nodupKeys := by
        show (List.map Sigma.fst (d.files.entries.map _)).Nodup
        rw [List.map_map]
        exact d.files.keys_nodup }
  owned := d.owned
  othersWrite := d.othersWrite

/-- How the file system lists a directory: its two dot entries and each file once. -/
structure Listing where
  order : List Name → List Name
  order_perm : ∀ names, (order names).Perm (['.'] :: ['.', '.'] :: names)

/-! ### Calls -/

/-- What a system call does. -/
inductive Answer
  | ok
  | fail
  /-- A `read` or a `write` of so many bytes only. -/
  | short (n : Nat)
  /-- `EINTR` of a `read` or a `write`. -/
  | intr
  | crash (lost : Bytes → Bytes)

/-- The file system, the answers to come, and what `kv_iter` gave to its callback. -/
structure Sys where
  fs : Fs
  script : List Answer := []
  reported : List (Bytes × Bytes) := []

open Crash

abbrev Io := Prog Sys

/-- The next answer. A script that has ended answers `ok`. -/
def ask : Io Answer := fun s =>
  match s.script with
  | [] => (some .ok, s)
  | .crash lost :: rest => (none, { s with fs := fun ns => (s.fs ns).map (Dir.lose lost), script := rest })
  | a :: rest => (some a, { s with script := rest })

/-- A call that succeeds or fails. -/
def call : Io Bool := do
  match ← ask with
  | .fail => return false
  | _ => return true

/-- `errno` as the code tells it apart. -/
inductive Errno
  | noent
  | exist
  | intr
  | other
deriving DecidableEq

/-- The result of a call: an error, or none. -/
abbrev Res := Option Errno

def nsOpen (ns : UInt8) : Io Res := do
  if !(← call) then return some .other
  Prog.act fun s => (if (s.fs ns).isSome then none else some .noent, s)

def mkdir (ns : UInt8) : Io Bool := do
  if !(← call) then return false
  Prog.act fun s => (true, { s with fs := Function.update s.fs ns (some ((s.fs ns).getD {})) })

/-- `wmqb_validate_dir` -/
def validateDir (ns : UInt8) : Io Bool := do
  if !(← call) then return false
  Prog.act fun s => ((s.fs ns).any (fun d => d.owned && !d.othersWrite), s)

/-- `openat` with `O_CREAT | O_EXCL` -/
def openExcl (ns : UInt8) (name : Name) : Io Res := do
  if !(← call) then return some .other
  if name.length > nameMax then return some .other
  Prog.act fun s =>
    if (s.fs.file ns name).isSome then (some .exist, s)
    else (none, { s with fs := s.fs.setFiles ns (·.insert name {}) })

def unlink (ns : UInt8) (name : Name) : Io Res := do
  if !(← call) then return some .other
  if name.length > nameMax then return some .other
  Prog.act fun s =>
    if (s.fs.file ns name).isSome then (none, { s with fs := s.fs.setFiles ns (·.erase name) })
    else (some .noent, s)

/-- `fstat`, or `fstatat` of a name: the file it finds. -/
def stat (ns : UInt8) (name : Name) : Io (Option File) := do
  if !(← call) then return none
  Prog.act fun s => (s.fs.file ns name, s)

def write (ns : UInt8) (name : Name) (bytes : Bytes) : Io (Except Errno Nat) := do
  let put (n : Nat) : Io (Except Errno Nat) := Prog.act fun s =>
    (.ok (bytes.take n).length, { s with fs := s.fs.setFile ns name fun f =>
      { f with data := f.data ++ bytes.take n, synced := false } })
  match ← ask with
  | .fail => return .error .other
  | .intr => return .error .intr
  | .short n => put n
  | _ => put bytes.length

def fsync (ns : UInt8) (name : Name) : Io Bool := do
  if !(← call) then return false
  Prog.act fun s => (true, { s with fs := s.fs.setFile ns name fun f => { f with synced := true } })

/-- `renameat`: replaces at once. -/
def rename (ns : UInt8) (old new : Name) : Io Bool := do
  if !(← call) then return false
  if new.length > nameMax then return false
  Prog.act fun s =>
    match s.fs.file ns old with
    | some f => (true, { s with fs := s.fs.setFiles ns fun files => (files.erase old).insert new f })
    | none => (false, s)

/-! ### The hooks -/

/-- `MQTT_CODE_ERROR_NOT_FOUND` -/
def notFound : Int := -15

/-- What `wmqb_open_ns` makes of the last `openat`. -/
def nsOpened (ns : UInt8) (err : Res) : Io Int := do
  if err ≠ none then return if err = some .noent then notFound else Code.system
  if !(← validateDir ns) then
    let _ ← call
    return Code.system
  return 0

/-- `wmqb_open_ns` -/
def openNs (ns : UInt8) (create : Bool) : Io Int := do
  let err ← nsOpen ns
  if err = some .noent ∧ create then
    if !(← mkdir ns) then return Code.system
    let err ← nsOpen ns
    nsOpened ns err
  else
    nsOpened ns err

/-- The broker's own regular file, with one link. -/
def File.single (f : File) : Bool := f.regular && f.owned && f.nlink == 1

/-- The temporary file: a left-over one of the broker's own is unlinked first. -/
def openTmp (ns : UInt8) (name : Name) : Io Bool := do
  match ← openExcl ns name with
  | none => return true
  | some .exist =>
    if (← stat ns name).any (fun f => f.single && !f.othersWrite) then
      match ← unlink ns name with
      | none => return (← openExcl ns name) = none
      | some _ => return false
    else return false
  | some _ => return false

/-- How often an interrupted `read` or `write` is tried again. -/
def eintrMax : Nat := 16

/-- The write loop: whether all bytes were written. -/
def writeAll (ns : UInt8) (name : Name) (bytes : Bytes) (eintrCount : Nat) : Io Bool := do
  if bytes.length = 0 then return true
  match ← write ns name bytes with
  | .error e =>
    if e = .intr ∧ eintrCount < eintrMax then writeAll ns name bytes (eintrCount + 1)
    else return false
  | .ok n =>
    if n = 0 then return false
    else writeAll ns name (bytes.drop n) eintrCount
termination_by (bytes.length, eintrMax - eintrCount)
decreasing_by
  · exact Prod.Lex.right _ (by omega)
  · refine Prod.Lex.left _ _ ?_
    rw [List.length_drop]
    omega

/-- The two closes and the `unlinkat` between them, on a way out of `wmqb_posix_put`. -/
def giveUp (ns : UInt8) (tmp : Name) (opened : Bool) : Io Int := do
  if opened then
    let _ ← call
  let _ ← unlink ns tmp
  let _ ← call
  return Code.system

/-- The rest of `wmqb_posix_put` once the temporary file is open. -/
def putOpened (ns : UInt8) (key blob : Bytes) : Io Int := do
  let tmp := tmpName key
  if !((← stat ns tmp).any File.single) then
    giveUp ns tmp true
  else if !(← writeAll ns tmp blob 0) then
    giveUp ns tmp true
  else if !(← fsync ns tmp) then
    giveUp ns tmp true
  else if !(← call) then
    giveUp ns tmp false
  else if !(← rename ns tmp (recName key)) then
    giveUp ns tmp false
  else
    -- the directory's `fsync` and its `close`, whose results are dropped
    let _ ← call
    let _ ← call
    return 0

/-- `wmqb_posix_put`: write to the temporary file, `fsync`, rename, `fsync` the directory. -/
def posixPut (ns : UInt8) (key blob : Bytes) : Io Int := do
  let rc ← openNs ns true
  if rc ≠ 0 then return rc
  if key.length > keyMax then
    let _ ← call
    return Code.outOfBuffer
  if !(← openTmp ns (tmpName key)) then
    let _ ← call
    return Code.system
  putOpened ns key blob

/-- `wmqb_posix_del` -/
def posixDel (ns : UInt8) (key : Bytes) : Io Int := do
  if key.length > keyMax then return Code.outOfBuffer
  let rc ← openNs ns false
  if rc = notFound then return 0
  if rc ≠ 0 then return rc
  match ← unlink ns (recName key) with
  | some e =>
    let _ ← call
    return if e = .noent then 0 else Code.system
  | none =>
    let _ ← call
    let _ ← call
    return 0

/-- The key a listed name stands for, if it is the name of a record. -/
def recordKey (name : Name) : Option Bytes :=
  if name.head? = some '.' then none
  else if name.length < 5 then none
  else if name.drop (name.length - 4) ≠ dotBin then none
  else if name.length - 4 ≥ 2 * keyMax + 1 then none
  else hexDecode (name.take (name.length - 4))

/-- The largest record `kv_iter` reads. -/
def recordMax : Nat := 16 * 1024 * 1024

/-- The read loop: the bytes it read of those that are `left`. -/
def readAll (left : Bytes) (eintrCount : Nat) : Io Bytes := do
  if left.length = 0 then return []
  match ← ask with
  | .fail => return []
  | .intr =>
    if eintrCount < eintrMax then readAll left (eintrCount + 1)
    else return []
  | .short n =>
    if n = 0 then return []
    else return left.take n ++ (← readAll (left.drop n) eintrCount)
  | _ => return left
termination_by (left.length, eintrMax - eintrCount)
decreasing_by
  · exact Prod.Lex.right _ (by omega)
  · refine Prod.Lex.left _ _ ?_
    rw [List.length_drop]
    omega

/-- What `kv_iter` tells its callback. -/
def report (key blob : Bytes) : Io Unit :=
  Prog.act fun s => ((), { s with reported := s.reported ++ [(key, blob)] })

/-- One round of the listing: the code to leave the loop with, if it ends here. -/
def iterEntry (ns : UInt8) (stop : Bytes → Bytes → Bool) (name : Name) : Io (Option Int) := do
  match recordKey name with
  | none => return none
  | some key =>
    if !(← call) then return none
    match ← stat ns name with
    | none =>
      let _ ← call
      return none
    | some f =>
      if !f.regular || !f.owned || f.data.length == 0 || decide (f.data.length > recordMax) then
        let _ ← call
        return none
      else if !(← call) then
        -- no memory for the record
        let _ ← call
        return some Code.memory
      else
        let blob ← readAll f.data 0
        let _ ← call
        if blob.length ≠ f.data.length then return none
        else
          report key blob
          return if stop key blob then some 0 else none

/-- The `readdir` loop. A `readdir` that fails ends it as the end of the directory does. -/
def iterEntries (ns : UInt8) (stop : Bytes → Bytes → Bool) : List Name → Io Int
  | [] => return 0
  | name :: rest => do
    if !(← call) then return 0
    match ← iterEntry ns stop name with
    | some rc => return rc
    | none => iterEntries ns stop rest

/-- `wmqb_posix_iter` -/
def posixIter (L : Listing) (ns : UInt8) (stop : Bytes → Bytes → Bool) : Io Int := do
  let rc ← openNs ns false
  if rc = notFound then return 0
  if rc ≠ 0 then return rc
  if !(← call) then
    let _ ← call
    return Code.system
  let names ← Prog.act fun s => ((((s.fs ns).map fun d => d.files.keys).getD []), s)
  let rc ← iterEntries ns stop (L.order names)
  let _ ← call
  return rc

/-! ### Runs -/

/-- A call of a hook. `stop` is what the callback of `kv_iter` answers. -/
inductive KvOp
  | put (ns : UInt8) (key blob : Bytes)
  | del (ns : UInt8) (key : Bytes)
  | iter (ns : UInt8) (stop : Bytes → Bytes → Bool)

def KvOp.prog (L : Listing) : KvOp → Io Int
  | .put ns key blob => posixPut ns key blob
  | .del ns key => posixDel ns key
  | .iter ns stop => posixIter L ns stop

/-- One call: what it returned, if it was not cut off, what it reported, and the file system after it. -/
structure Done where
  rc : Option Int
  reported : List (Bytes × Bytes)
  fs : Fs

def exec (L : Listing) (op : KvOp) (script : List Answer) (fs : Fs) : Done :=
  let (rc, s) := op.prog L { fs, script }
  { rc, reported := s.reported, fs := s.fs }

end WolfMqtt.Persist.Posix
