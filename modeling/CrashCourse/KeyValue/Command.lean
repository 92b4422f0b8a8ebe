import CrashCourse.KeyValue.Store

/-!
The commands, replies and their canonical bytes. Decoding refuses nested batches, so a
batch holds ordinary operations here.
-/

namespace CrashCourse.KeyValue
open CrashCourse.Core

inductive SetCondition where
  | nx | xx
  deriving DecidableEq, Repr

/-- An ordinary command. Times and durations are in nanoseconds, `delta` is an `i64`. -/
inductive KvOp where
  | set (key value : Bytes) (ttl : Option Nat)
  | conditionalSet (key value : Bytes) (ttl : Option Nat) (condition : SetCondition)
  | del (key : Bytes)
  | cas (key : Bytes) (expected value : Option Bytes)
  | incr (key : Bytes) (delta : Int)
  | append (key value : Bytes)
  | getSet (key value : Bytes)
  | getDel (key : Bytes)
  | expire (key : Bytes) (ttl : Nat)
  | expireAt (key : Bytes) (at_ : Nat)
  | ttl (key : Bytes)
  | persist (key : Bytes)
  | purgeExpired (upTo : Nat)
  | expireSessions (upTo : Nat)
  | get (key : Bytes)
  | scan (start stop : Option Bytes) (limit : Nat)
  | ping
  deriving DecidableEq, Repr

inductive KvCommand where
  | op (op : KvOp)
  | batch (commands : List KvOp)
  deriving DecidableEq, Repr

inductive KvError where
  | store (error : StoreError)
  | decode (error : DecodeError)
  | staleSequence
  | sequenceConflict
  | sessionExpired
  | notNumeric
  | casMismatch
  | busy
  | tooLarge
  | invalidInput
  deriving DecidableEq, Repr

inductive OpReply where
  | ok
  | value (value : Option Bytes)
  | integer (value : Int)
  | cas (value : Bool)
  | conditional (value : Bool)
  | scan (items : List (Bytes × Bytes))
  | error (error : KvError)
  deriving DecidableEq, Repr

inductive KvReply where
  | op (reply : OpReply)
  | batch (replies : List OpReply)
  | batchError (failedIndex : Option Nat) (error : KvError)
  deriving DecidableEq, Repr

def snapshotVersion : Nat := 1
def batchVersion : Nat := 3

-- The magics are the ASCII words `CCKV` and `CCKR`, read as little-endian `u32`.
def kvMagic : Nat := 0x564b4343
def replyMagic : Nat := 0x524b4343

def maxScan : Nat := 4096
def maxBatchCommands : Nat := 65536

/-- `*value as u64` on an `i64`. -/
def i64Bits (value : Int) : Nat := (value % 2 ^ 64).toNat

def encodeOptionalBytes : Option Bytes → Bytes
  | some value => Enc.u8 1 ++ Enc.bytes value
  | none => Enc.u8 0

def encodeOptionalDuration : Option Nat → Bytes
  | some value => Enc.u8 1 ++ Enc.u64 value
  | none => Enc.u8 0

def encodeOpBody : KvOp → Bytes
  | .set key value ttl => Enc.u8 1 ++ Enc.bytes key ++ Enc.bytes value ++ encodeOptionalDuration ttl
  | .conditionalSet key value ttl condition =>
    Enc.u8 17 ++ Enc.bytes key ++ Enc.bytes value ++ encodeOptionalDuration ttl
      ++ Enc.u8 (match condition with | .nx => 1 | .xx => 2)
  | .del key => Enc.u8 2 ++ Enc.bytes key
  | .cas key expected value =>
    Enc.u8 3 ++ Enc.bytes key ++ encodeOptionalBytes expected ++ encodeOptionalBytes value
  | .incr key delta => Enc.u8 4 ++ Enc.bytes key ++ Enc.u64 (i64Bits delta)
  | .append key value => Enc.u8 12 ++ Enc.bytes key ++ Enc.bytes value
  | .getSet key value => Enc.u8 13 ++ Enc.bytes key ++ Enc.bytes value
  | .getDel key => Enc.u8 14 ++ Enc.bytes key
  | .expire key ttl => Enc.u8 5 ++ Enc.bytes key ++ Enc.u64 ttl
  | .expireAt key at_ => Enc.u8 15 ++ Enc.bytes key ++ Enc.u64 at_
  | .ttl key => Enc.u8 16 ++ Enc.bytes key
  | .persist key => Enc.u8 6 ++ Enc.bytes key
  | .purgeExpired upTo => Enc.u8 7 ++ Enc.u64 upTo
  | .expireSessions upTo => Enc.u8 8 ++ Enc.u64 upTo
  | .get key => Enc.u8 9 ++ Enc.bytes key
  | .scan start stop limit =>
    Enc.u8 10 ++ encodeOptionalBytes start ++ encodeOptionalBytes stop
      ++ Enc.u32 (min limit (2 ^ 32 - 1))
  | .ping => Enc.u8 11

def encodeOp (op : KvOp) : Bytes := Enc.header kvMagic snapshotVersion ++ encodeOpBody op

def encodeCommand : KvCommand → Bytes
  | .op op => encodeOp op
  | .batch commands =>
    Enc.header kvMagic batchVersion ++ Enc.u8 18 ++ Enc.u32 commands.length
      ++ commands.flatMap fun op => Enc.bytes (encodeOp op)

def errorTag : KvError → UInt8
  | .staleSequence => 1
  | .sequenceConflict => 2
  | .sessionExpired => 3
  | .notNumeric => 4
  | .casMismatch => 5
  | .tooLarge => 6
  | .invalidInput => 7
  | .store _ | .decode _ => 8
  | .busy => 9

def encodeOpReplyBody : OpReply → Bytes
  | .ok => Enc.u8 1
  | .value value => Enc.u8 2 ++ encodeOptionalBytes value
  | .integer value => Enc.u8 3 ++ Enc.u64 (i64Bits value)
  | .cas value => Enc.u8 4 ++ Enc.u8 (if value then 1 else 0)
  | .conditional value => Enc.u8 5 ++ Enc.u8 (if value then 1 else 0)
  | .scan items =>
    Enc.u8 6 ++ Enc.u32 items.length
      ++ items.flatMap fun item => Enc.bytes item.1 ++ Enc.bytes item.2
  | .error error => Enc.u8 7 ++ Enc.u8 (errorTag error)

def encodeOpReply (reply : OpReply) : Bytes :=
  sealRecord (Enc.header replyMagic snapshotVersion ++ encodeOpReplyBody reply)

def encodeReply : KvReply → Bytes
  | .op reply => encodeOpReply reply
  | .batch replies =>
    sealRecord (Enc.header replyMagic batchVersion ++ Enc.u8 7 ++ Enc.u8 1 ++ Enc.u32 replies.length
      ++ replies.flatMap fun reply => Enc.bytes (encodeOpReply reply))
  | .batchError failedIndex error =>
    sealRecord (Enc.header replyMagic batchVersion ++ Enc.u8 7 ++ Enc.u8 0
      ++ (match failedIndex with
        | some index => Enc.u8 1 ++ Enc.u32 index
        | none => Enc.u8 0 ++ Enc.u32 0)
      ++ Enc.bytes (encodeOpReply (.error error)))

def batchCharge : List KvOp → Nat → Nat → Except KvError Unit
  | [], _, _ => .ok ()
  | op :: rest, bytes, maxBytes =>
    let bytes := bytes + (4 + (encodeOp op).length)
    if bytes > u64Max || bytes > maxBytes then .error .tooLarge
    else batchCharge rest bytes maxBytes

def validateBatch (commands : List KvOp) (maxCommands maxBytes : Nat) : Except KvError Unit :=
  if commands.isEmpty then .error .invalidInput
  else if commands.length > maxCommands then .error .tooLarge
  else batchCharge commands 11 maxBytes

end CrashCourse.KeyValue
