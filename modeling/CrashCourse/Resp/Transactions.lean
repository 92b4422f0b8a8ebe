import CrashCourse.Core.Policy
import CrashCourse.KeyValue.Command

/-!
The transaction of a client connection.
-/

namespace CrashCourse.Resp
open CrashCourse.Core CrashCourse.KeyValue

/-- The commands that `execute_client` does not take itself; those that are never queued
are without their arguments. -/
inductive ClientCommand where
  | batch | ping | echo | exist | scan | request | admin | adminMembers | readFollower | readStale | info | unknown
  | set (key value : Bytes) (ttl : Option Nat) (nx xx : Bool)
  | get (key : Bytes)
  | cas (key expected value : Bytes)
  | del (keys : List Bytes)
  | incrBy (key : Bytes) (delta : Int)
  | append (key value : Bytes)
  | getSet (key value : Bytes)
  | getDel (key : Bytes)
  | setNx (key value : Bytes)
  | expire (key : Bytes) (ttl : Nat)
  | expireAt (key : Bytes) (atSeconds : Nat)
  | ttl (key : Bytes)
  | persist (key : Bytes)

def setKv (key value : Bytes) (ttl : Option Nat) : Bool → Bool → Except String KvOp
  | true, false => .ok (.conditionalSet key value ttl .nx)
  | false, true => .ok (.conditionalSet key value ttl .xx)
  | false, false => .ok (.set key value ttl)
  | true, true => .error "SET NX and XX are mutually exclusive"

def simpleKv : ClientCommand → Except String KvOp
  | .get key => .ok (.get key)
  | .cas key expected value => .ok (.cas key (some expected) (some value))
  | .incrBy key delta => .ok (.incr key delta)
  | .append key value => .ok (.append key value)
  | .getSet key value => .ok (.getSet key value)
  | .getDel key => .ok (.getDel key)
  | .setNx key value => .ok (.conditionalSet key value none .nx)
  | .expire key ttl => .ok (.expire key ttl)
  | .expireAt key atSeconds =>
    if atSeconds * 10 ^ 9 > u64Max then .error "EXPIREAT nanosecond overflow"
    else .ok (.expireAt key (atSeconds * 10 ^ 9))
  | .ttl key => .ok (.ttl key)
  | .persist key => .ok (.persist key)
  | _ => .error "unsupported client command"

def queueTransactionCommand : ClientCommand → Except String KvOp
  | .set key value ttl nx xx => setKv key value ttl nx xx
  | .del [key] => .ok (.del key)
  | .del _ => .error "DEL inside MULTI accepts one key"
  | .request | .batch | .admin | .adminMembers | .readFollower | .readStale | .info | .ping | .echo | .exist | .scan
  | .unknown => .error "command is not batchable"
  | command => simpleKv command

inductive ClientTransaction where
  | clean (commands : List (ClientCommand × KvOp)) (encodedBytes : Nat)
  | dirty

/-- A frame, as `parse_command` reads it; `active` says whether batches are enabled. -/
inductive Request where
  | multi (active : Bool)
  | exec
  | discard
  | command (command : ClientCommand)
  | malformed (error : String)

def Request.follows (body : Option (List Request)) : Request → Option (List Request)
  | .multi active => if body.isNone && active then some [] else body
  | .exec | .discard => none
  | request => body.map (· ++ [request])

/-- What the requests ask to be queued, if none of them is refused. -/
def queueOf (body : List Request) : Option (List (ClientCommand × KvOp)) := body.mapM fun
  | .command command => (queueTransactionCommand command).toOption.map fun op => (command, op)
  | _ => none

def charge (commands : List (ClientCommand × KvOp)) : Nat :=
  (commands.map fun command => (encodeOp command.2).length).sum

abbrev Fits (commands : List (ClientCommand × KvOp)) : Prop :=
  commands.length ≤ ClusterPolicy.default.maxBatchCommands ∧ charge commands ≤ ClusterPolicy.default.maxBatchBytes

def verdict (body : List Request) : ClientTransaction :=
  match queueOf body with
  | none => .dirty
  | some commands => if Fits commands then .clean commands (charge commands) else .dirty

end CrashCourse.Resp
