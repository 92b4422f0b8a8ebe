import CrashCourse.KeyValue.Sweeps

/-!
Two clocks: an applied command judges deadlines at the highest leader time so far, a read
at a timestamp of its own.
-/

namespace CrashCourse.KeyValue
open CrashCourse.Core

namespace Kv
variable {kv next : Kv} {key other : Bytes} {now : Nat}

def puts (kv : Kv) (now : Nat) : KvOp → Option (Bytes × Bytes)
  | .set key value _ | .getSet key value => some (key, value)
  | .conditionalSet key value _ condition =>
    let found := (kv.visibleGet key now).isSome
    let holds := match condition with
      | .nx => !found
      | .xx => found
    if holds then some (key, value) else none
  | .cas key expected (some value) =>
    if kv.visibleGet key now = expected then some (key, value) else none
  | .incr key delta =>
    ((parseI64 ((kv.visibleGet key now).getD [48])).bind (checkedAddI64 · delta)).map fun value =>
      (key, decimal value)
  | .append key value => some (key, (kv.visibleGet key now).getD [] ++ value)
  | _ => none

def writes (kv : Kv) (now : Nat) (op : KvOp) (key : Bytes) : Bool :=
  (kv.puts now op).any fun put => put.1 == key && !kv.refuses put.1 put.2

def liftsNone (kv : Kv) (now : Nat) : KvOp → Bool
  | .getDel key | .persist key => !kv.expired key now
  | _ => true

theorem visibleGet_congr {met : Kv} (store : met.store = kv.store) (ttl : met.ttl = kv.ttl) :
    met.visibleGet key now = kv.visibleGet key now := by
  unfold visibleGet expired
  rw [store, ttl]

theorem Changes.visible_other {value : Option Bytes} {deadline : Option Nat}
    (changes : Changes kv other value deadline next) (apart : other ≠ key) :
    next.visibleGet key now = kv.visibleGet key now := by
  unfold visibleGet expired
  rw [changes.value, changes.deadline, if_neg apart, if_neg apart]

theorem Changes.hidden_of_none {deadline : Option Nat} (changes : Changes kv key none deadline next) :
    next.visibleGet key now = none := by
  unfold visibleGet
  rw [changes.value, if_pos rfl, ite_self]

section
variable (hidden : kv.visibleGet key now = none)
include hidden

theorem get_of_hidden (alive : kv.expired key now = false) :
    kv.store.get key = none := by
  unfold visibleGet at hidden
  rwa [alive, if_neg Bool.false_ne_true] at hidden

theorem discard_hidden (other : Bytes) {after : Kv}
    (done : kv.discard other = .ok after) : after.visibleGet key now = none := by
  rcases kv.discard_cases other with ⟨error, -, refused⟩ | ⟨next, -, same, changes⟩
  · rw [refused] at done
    cases done
  rw [same] at done
  cases done
  by_cases here : other = key
  · subst here
    exact changes.hidden_of_none
  · rw [changes.visible_other here, hidden]

theorem purgeKeys_hidden {keys : List Bytes} :
    (kv.purgeKeys keys).1.visibleGet key now = none := by
  induction keys generalizing kv with
  | nil => exact hidden
  | cons first rest ih =>
    unfold purgeKeys
    split
    · exact hidden
    next done => exact ih (discard_hidden hidden first done)

theorem clearDeadline_hidden (other : Bytes)
    (alive : kv.expired other now = false) : (kv.clearDeadline other).visibleGet key now = none := by
  have changes := clearDeadline_changes kv other
  by_cases here : other = key
  · subst here
    rw [get_of_hidden hidden alive] at changes
    exact changes.hidden_of_none
  · rw [changes.visible_other here, hidden]

end

inductive Affects (kv : Kv) (now : Nat) (op : KvOp) : Kv → Prop
  | kept {next : Kv} (store : next.store = kv.store) (ttl : next.ttl = kv.ttl)
      (time : next.lastLeaderTime = kv.lastLeaderTime) : Affects kv now op next
  | put {next : Kv} {stored value : Bytes} {deadline : Option Nat}
      (puts : kv.puts now op = some (stored, value)) (admitted : kv.refuses stored value = false)
      (changes : Changes kv stored (some value) deadline next) : Affects kv now op next
  | removed {next : Kv} {stored : Bytes} (changes : Changes kv stored none none next) : Affects kv now op next
  | moved {next : Kv} {stored : Bytes} {deadline : Option Nat} (found : (kv.visibleGet stored now).isSome)
      (changes : Changes kv stored (kv.store.get stored) deadline next) : Affects kv now op next
  | lifted {stored : Bytes} (lifts : op = .getDel stored ∨ op = .persist stored) :
      Affects kv now op (kv.clearDeadline stored)
  | swept (keys : List Bytes) : Affects kv now op (kv.purgeKeys keys).1

theorem Affects.same {op : KvOp} : Affects kv now op kv := .kept rfl rfl rfl

theorem affects_put {op : KvOp} {stored value : Bytes}
    {rest : { next : Kv // next.store.live.contains stored } → Kv × Outcome OpReply}
    (puts : kv.puts now op = some (stored, value))
    (settles : ∀ next, Changes kv stored (some value) kv.ttl[stored]? next.1 →
      ∃ deadline, Changes kv stored (some value) deadline (rest next).1) :
    Affects kv now op (kv.andThen (kv.putValue stored value) rest).1 := by
  unfold andThen
  rcases kv.putValue_cases stored value with ⟨error, -, refused⟩ | ⟨next, admitted, done, changes⟩
  · rw [refused]
    exact .same
  · rw [done]
    rcases settles next changes with ⟨deadline, settled⟩
    exact .put puts (by simp [refuses, admitted]) settled

theorem affects_discard {op : KvOp} (stored : Bytes) (reply : OpReply) :
    Affects kv now op (kv.andThen (kv.discard stored) fun next => (next, .done reply)).1 := by
  unfold andThen
  rcases kv.discard_cases stored with ⟨error, -, refused⟩ | ⟨next, -, done, changes⟩
  · rw [refused]
    exact .same
  · rw [done]
    exact .removed changes

theorem settleTtl_changes {value : Option Bytes} {deadline : Option Nat}
    (changes : Changes kv key value deadline next) (held : next.store.live.contains key)
    (now : Nat) (ttl : Option Nat) (reply : OpReply) :
    ∃ deadline, Changes kv key value deadline (next.settleTtl key held now ttl reply).1 := by
  unfold settleTtl
  split
  · exact ⟨none, changes.clear⟩
  · split
    · exact ⟨_, changes.set _ held⟩
    · exact ⟨_, changes⟩

theorem applyOp_affects (kv : Kv) (now items : Nat) (op : KvOp) : Affects kv now op (kv.applyOp now items op).1 := by
  cases op with
  | set stored value ttl =>
    exact affects_put rfl fun next changes => settleTtl_changes changes _ _ _ _
  | conditionalSet stored value ttl condition =>
    cases condition
    all_goals
      simp only [applyOp]
      split
      · exact .same
      next holds =>
        simp only [Bool.not_eq_true, Bool.not_eq_false'] at holds
        refine affects_put ?_ fun next changes => settleTtl_changes changes _ _ _ _
        simp only [puts, holds, if_true]
  | del stored => exact affects_discard stored _
  | cas stored expected value =>
    simp only [applyOp]
    split
    · exact .same
    next same =>
      cases value with
      | some value =>
        refine affects_put ?_ fun next changes => ⟨none, changes.clear⟩
        exact if_pos (not_not.mp same)
      | none => exact affects_discard stored _
  | incr stored delta =>
    simp only [applyOp]
    split
    · exact .same
    next value parsed =>
      refine affects_put ?_ fun next changes => ⟨_, changes⟩
      simp only [puts, parsed, Option.map_some]
  | append stored value => exact affects_put rfl fun next changes => ⟨_, changes⟩
  | getSet stored value => exact affects_put rfl fun next changes => ⟨none, changes.clear⟩
  | getDel stored =>
    simp only [applyOp]
    split
    · exact affects_discard stored _
    · exact .lifted (.inl rfl)
  | expire stored ttl =>
    simp only [applyOp]
    split
    next found =>
      rcases settleTtl_changes (Changes.refl kv stored) (held_of_visible found) now (some ttl)
        (.integer 1) with ⟨deadline, changes⟩
      exact .moved found changes
    · exact .same
  | expireAt stored at_ =>
    simp only [applyOp]
    split
    next found => exact .moved found (setDeadline_changes kv stored at_ (held_of_visible found))
    · exact .same
  | persist stored => exact .lifted (.inr rfl)
  | purgeExpired upTo =>
    have swept : Affects kv now (.purgeExpired upTo) (kv.purgeKeys (kv.expiredKeys upTo items)).1 :=
      .swept _
    simp only [applyOp]
    rcases purged : kv.purgeKeys (kv.expiredKeys upTo items) with ⟨after, _ | _⟩ <;>
      rwa [purged] at swept
  | expireSessions upTo => exact .kept rfl rfl rfl
  | ttl | get | scan | ping => exact .same

theorem Affects.hidden {op : KvOp} (affects : Affects kv now op next)
    (hidden : kv.visibleGet key now = none) (lifts : kv.liftsNone now op)
    (unwritten : kv.writes now op key = false) : next.visibleGet key now = none := by
  cases affects with
  | kept store ttl _ => rw [visibleGet_congr store ttl, hidden]
  | @put _ stored value _ puts admitted changes =>
    have different : stored ≠ key := by
      rintro rfl
      simp [writes, puts, admitted] at unwritten
    rw [changes.visible_other different, hidden]
  | @removed _ stored changes =>
    by_cases here : stored = key
    · subst here
      exact changes.hidden_of_none
    · rw [changes.visible_other here, hidden]
  | @moved _ stored _ found changes =>
    have different : stored ≠ key := by
      rintro rfl
      simp [hidden] at found
    rw [changes.visible_other different, hidden]
  | @lifted stored which =>
    apply clearDeadline_hidden hidden
    rcases which with rfl | rfl <;> simpa [liftsNone] using lifts
  | swept keys => exact purgeKeys_hidden hidden

theorem purgeKeys_time (kv : Kv) (keys : List Bytes) : (kv.purgeKeys keys).1.lastLeaderTime = kv.lastLeaderTime := by
  induction keys generalizing kv with
  | nil => rfl
  | cons first rest ih =>
    unfold purgeKeys
    rcases kv.discard_cases first with ⟨error, -, refused⟩ | ⟨after, -, done, changes⟩
    · rw [refused]
    · rw [done]
      exact (ih after).trans changes.time

theorem Affects.time {op : KvOp} (affects : Affects kv now op next) : next.lastLeaderTime = kv.lastLeaderTime := by
  cases affects with
  | kept _ _ time => exact time
  | put _ _ changes => exact changes.time
  | removed changes => exact changes.time
  | moved _ changes => exact changes.time
  | lifted _ => exact (clearDeadline_changes kv _).time
  | swept keys => exact kv.purgeKeys_time keys

theorem hidden_later {later : Nat} (order : now ≤ later) (hidden : kv.visibleGet key now = none) :
    kv.visibleGet key later = none := by
  unfold visibleGet at hidden ⊢
  split
  · rfl
  next alive =>
    have before : ¬ kv.expired key now := fun expired => alive (expired_mono order expired)
    rwa [if_neg before] at hidden

def shows (key : Bytes) : KvOp → Except KvError OpReply → Bool
  | .get asked, .ok (.value found) => asked == key && found.isSome
  | .ttl asked, .ok (.integer seconds) => asked == key && seconds != -2
  | .scan .., .ok (.scan entries) => entries.any fun entry => entry.1 == key
  | _, _ => false

theorem read_hidden (hidden : kv.visibleGet key now = none) (op : KvOp) : shows key op (kv.read op now) = false := by
  cases op with
  | get asked =>
    by_cases here : asked = key
    · subst here
      simp [read, shows, hidden]
    · simp [read, shows, here]
  | ttl asked =>
    by_cases here : asked = key
    · subst here
      simp [read, shows, ttlSeconds, hidden]
    · simp [read, shows, here]
  | scan start stop limit =>
    -- What the scan shows is stored and alive, so a read of that key would find it.
    simp only [read, shows, List.any_eq_false, beq_iff_eq]
    rintro entry member rfl
    have listed := List.mem_filter.mp member
    have held := (mem_range.mp (List.mem_of_mem_take listed.1)).1
    have alive : kv.expired entry.1 now = false := by simpa using listed.2
    rw [get_of_hidden hidden alive] at held
    cases held
  | _ => rfl

inductive Turn where
  | command (index term : Nat) (command : KvCommand) (leaderTime : Nat) (limits : BatchLimits)
  | mark (index term leaderTime : Nat)
  | read (op : KvOp) (at_ : Nat)

def turn (kv : Kv) : Turn → Kv
  | .command index term command leaderTime limits =>
    (kv.applyCommandOnlyWithBatchLimits index term command leaderTime limits).1
  | .mark index term leaderTime => kv.markApplied index term leaderTime
  | .read .. => kv

/-- The operations of a command that take effect: a batch that is not published has none. -/
def executed (kv : Kv) (now : Nat) (limits : BatchLimits) : KvCommand → List KvOp
  | .op op => [op]
  | .batch ops =>
    match kv.applyBatch now limits ops with
    | (_, .done (.batch _)) => ops
    | _ => []

inductive Moment where
  | op (met : Kv) (now items : Nat) (op : KvOp)
  | read (met : Kv) (op : KvOp) (at_ : Nat)

def opMoments (now items : Nat) : Kv → List KvOp → List Moment
  | _, [] => []
  | kv, op :: rest => .op kv now items op :: opMoments now items (kv.applyOp now items op).1 rest

def turnMoments (kv : Kv) : Turn → List Moment
  | .command _ _ command leaderTime limits =>
    let (kv, now) := kv.monotonicTime leaderTime
    opMoments now limits.maxExpiryItems kv (kv.executed now limits command)
  | .mark .. => []
  | .read op at_ => [.read kv op at_]

def moments (kv : Kv) : List Turn → List Moment
  | [] => []
  | turn :: rest => kv.turnMoments turn ++ (kv.turn turn).moments rest

namespace Moment

def writes (key : Bytes) : Moment → Bool
  | op met now _ done => met.writes now done key
  | read .. => false

/-- A read does not look back behind the applied time, and a command lifts no passed deadline. -/
def orderly : Moment → Bool
  | op met now _ done => met.liftsNone now done
  | read met _ at_ => decide (met.lastLeaderTime ≤ at_)

end Moment

def Linked : Kv → Nat → List Moment → Prop
  | _, _, [] => True
  | kv, time, .op met now items op :: rest =>
    met.store = kv.store ∧ met.ttl = kv.ttl ∧ time ≤ now ∧ Linked (met.applyOp now items op).1 now rest
  | kv, time, .read met _ _ :: rest =>
    met.store = kv.store ∧ met.ttl = kv.ttl ∧ time ≤ met.lastLeaderTime ∧ Linked kv time rest

theorem Linked.congr {events : List Moment} {kv' : Kv} {time time' : Nat} (store : kv'.store = kv.store)
    (ttl : kv'.ttl = kv.ttl) (order : time' ≤ time) (linked : Linked kv time events) : Linked kv' time' events := by
  induction events with
  | nil => trivial
  | cons moment rest ih =>
    cases moment with
    | op met now items op =>
      exact ⟨linked.1.trans store.symm, linked.2.1.trans ttl.symm, order.trans linked.2.2.1, linked.2.2.2⟩
    | read met op at_ =>
      exact ⟨linked.1.trans store.symm, linked.2.1.trans ttl.symm, order.trans linked.2.2.1,
        ih linked.2.2.2⟩

theorem linked_opMoments {ops : List KvOp} {items : Nat} {rest : List Moment}
    (linked : Linked (ops.foldl (fun kv op => (kv.applyOp now items op).1) kv) now rest) :
    Linked kv now (opMoments now items kv ops ++ rest) := by
  induction ops generalizing kv with
  | nil => exact linked
  | cons op ops ih => exact ⟨rfl, rfl, le_rfl, ih linked⟩

theorem batchLoop_replies {items : Nat} {ops : List KvOp} {index : Nat} {replies all : List OpReply}
    (done : batchLoop now items kv ops index replies = .replies next all) :
    next = ops.foldl (fun kv op => (kv.applyOp now items op).1) kv := by
  induction ops generalizing kv index replies with
  | nil =>
    cases done
    rfl
  | cons op ops ih =>
    unfold batchLoop at done
    rw [List.foldl_cons]
    rcases applied : kv.applyOp now items op with ⟨after, reply | error | _⟩ <;> rw [applied] at done
    · exact ih done
    · cases done
    · cases done

theorem applyBatch_cases (kv : Kv) (now : Nat) (limits : BatchLimits) (ops : List KvOp) :
    (∃ outcome, kv.applyBatch now limits ops = (kv, outcome) ∧
      ∀ replies, outcome ≠ .done (.batch replies)) ∨
    (∃ tentative replies, kv.applyBatch now limits ops = (tentative, .done (.batch replies)) ∧
      batchLoop now limits.maxExpiryItems kv ops 0 [] = .replies tentative replies) := by
  unfold applyBatch
  split
  · exact .inl ⟨_, rfl, nofun⟩
  split
  · exact .inl ⟨_, rfl, nofun⟩
  · exact .inl ⟨_, rfl, nofun⟩
  next tentative replies ended =>
    split
    · exact .inl ⟨_, rfl, nofun⟩
    · split
      · exact .inl ⟨_, rfl, nofun⟩
      · exact .inr ⟨tentative, replies, rfl, ended⟩

theorem applyBatch_executed (limits : BatchLimits) (ops : List KvOp) : (kv.applyBatch now limits ops).1 =
      (kv.executed now limits (.batch ops)).foldl
        (fun kv op => (kv.applyOp now limits.maxExpiryItems op).1) kv := by
  simp only [executed]
  rcases kv.applyBatch_cases now limits ops with ⟨outcome, kept, other⟩ | ⟨tentative, replies, done, ended⟩
  · rw [kept]
    split
    next published => exact absurd (congrArg Prod.snd published) (other _)
    · rfl
  · rw [done]
    exact batchLoop_replies ended

theorem command_executed (limits : BatchLimits) (command : KvCommand) :
    (kv.applyCommandWithBatchLimits command now limits).1 =
      (kv.executed now limits command).foldl
        (fun kv op => (kv.applyOp now limits.maxExpiryItems op).1) kv := by
  cases command with
  | batch ops => exact applyBatch_executed limits ops
  | op op =>
    simp only [applyCommandWithBatchLimits, executed, List.foldl_cons, List.foldl_nil]
    rcases kv.applyOp now limits.maxExpiryItems op with ⟨after, reply | error | _⟩ <;> rfl

theorem foldl_time (kv : Kv) (items : Nat) (ops : List KvOp) :
    (ops.foldl (fun kv op => (kv.applyOp now items op).1) kv).lastLeaderTime = kv.lastLeaderTime := by
  induction ops generalizing kv with
  | nil => rfl
  | cons op ops ih => exact (ih _).trans (kv.applyOp_affects now items op).time

theorem turn_command (kv : Kv) (index term : Nat) (command : KvCommand) (leaderTime : Nat)
    (limits : BatchLimits) {after : Kv} {now : Nat} (timed : kv.monotonicTime leaderTime = (after, now)) :
    let last := (after.executed now limits command).foldl
      (fun kv op => (kv.applyOp now limits.maxExpiryItems op).1) after
    (kv.turn (.command index term command leaderTime limits)).store = last.store ∧
      (kv.turn (.command index term command leaderTime limits)).ttl = last.ttl ∧
      (kv.turn (.command index term command leaderTime limits)).lastLeaderTime = after.lastLeaderTime := by
  intro last
  have reached : (after.applyCommandWithBatchLimits command now limits).1 = last :=
    command_executed limits command
  have time : last.lastLeaderTime = after.lastLeaderTime := foldl_time ..
  simp only [turn, applyCommandOnlyWithBatchLimits, timed]
  rcases ended : after.applyCommandWithBatchLimits command now limits with ⟨next, reply | error | _⟩ <;>
    (rw [ended] at reached; subst reached; exact ⟨rfl, rfl, time⟩)

theorem linked_moments (kv : Kv) (turns : List Turn) : Linked kv kv.lastLeaderTime (kv.moments turns) := by
  induction turns generalizing kv with
  | nil => trivial
  | cons first rest ih =>
    have later := ih (kv.turn first)
    cases first with
    | command index term command leaderTime limits =>
      have timed := kv.monotonicTime_eq leaderTime
      rcases kv.turn_command index term command leaderTime limits timed with ⟨store, ttl, time⟩
      have reached := linked_opMoments (later.congr store.symm ttl.symm time.ge)
      simp only [moments, turnMoments, timed]
      refine Linked.congr ?_ ?_ (le_max_left _ _) reached
      · rfl
      · rfl
    | mark index term leaderTime =>
      refine later.congr ?_ ?_ ?_
      all_goals simp only [turn, markApplied, advanceApplied, monotonicTime_eq]
      exact le_max_left _ _
    | read op at_ => exact ⟨rfl, rfl, le_rfl, later⟩

theorem Linked.of_append {before events : List Moment} {time : Nat}
    (linked : Linked kv time (before ++ events)) : ∃ kv time, Linked kv time events := by
  induction before generalizing kv time with
  | nil => exact ⟨kv, time, linked⟩
  | cons moment rest ih =>
    cases moment with
    | op met now items op | read met op at_ => exact ih linked.2.2.2

theorem Linked.hidden {between after : List Moment} {time : Nat} {met : Kv} {op : KvOp} {at_ : Nat}
    (linked : Linked kv time (between ++ .read met op at_ :: after))
    (orderly : ∀ moment ∈ between ++ .read met op at_ :: after, moment.orderly)
    (unwritten : ∀ moment ∈ between, moment.writes key = false)
    (hidden : kv.visibleGet key time = none) : met.visibleGet key at_ = none := by
  induction between generalizing kv time with
  | nil =>
    have forward : met.lastLeaderTime ≤ at_ := of_decide_eq_true (orderly _ List.mem_cons_self)
    rw [visibleGet_congr linked.1 linked.2.1]
    exact hidden_later (linked.2.2.1.trans forward) hidden
  | cons moment rest ih =>
    have fair := fun other member => orderly other (List.mem_cons_of_mem _ member)
    have kept := fun other member => unwritten other (List.mem_cons_of_mem _ member)
    cases moment with
    | op before now items done =>
      rcases linked with ⟨store, ttl, order, later⟩
      apply ih later fair kept
      apply (before.applyOp_affects now items done).hidden
      · rw [visibleGet_congr store ttl]
        exact hidden_later order hidden
      · exact orderly _ List.mem_cons_self
      · exact unwritten _ List.mem_cons_self
    | read before other asked => exact ih linked.2.2.2 fair kept hidden

end Kv

open Kv in
/-- In a run whose reads do not look back behind the applied time and whose commands
lift no passed deadline, a key that is expired for an applied operation is shown by no
later read, unless it is stored. -/
theorem expired_stays_hidden (kv : Kv) (turns : List Turn) (key : Bytes)
    (orderly : ∀ moment ∈ kv.moments turns, moment.orderly)
    {before between after : List Moment} {met : Kv} {now items : Nat} {op : KvOp} {reader : Kv}
    {asked : KvOp} {at_ : Nat} (run : kv.moments turns =
      before ++ .op met now items op :: (between ++ .read reader asked at_ :: after)) (observed : met.expired key now)
    (unwritten : ∀ moment ∈ .op met now items op :: between, moment.writes key = false) :
    shows key asked (reader.read asked at_) = false := by
  have linked := kv.linked_moments turns
  rw [run] at linked orderly
  rcases linked.of_append with ⟨state, time, -, -, -, later⟩
  have fair := fun moment member => orderly moment (List.mem_append_right before member)
  apply read_hidden
  apply later.hidden
  · exact fun moment member => fair moment (List.mem_cons_of_mem _ member)
  · exact fun moment member => unwritten moment (List.mem_cons_of_mem _ member)
  · apply (met.applyOp_affects now items op).hidden
    · unfold visibleGet
      rw [observed, if_pos rfl]
    · exact fair _ List.mem_cons_self
    · exact unwritten _ List.mem_cons_self

/-- A key with a deadline of five, looked at in time ten and read again at the given time. -/
def lateLook (look : KvOp) (at_ : Nat) : List Kv.Turn := [
  .command 1 1 (.op (.set [1] [2] (some 5))) 0 .default,
  .command 2 1 (.op look) 10 .default,
  .read (.get [1]) at_]

def fresh : Kv := .new .default

def withDeadline : Kv := fresh.turn (.command 1 1 (.op (.set [1] [2] (some 5))) 0 .default)

theorem expired_stays_hidden_lateLook : Kv.shows [1] (.get [1])
      ((withDeadline.turn (.command 2 1 (.op (.get [1])) 10 .default)).read (.get [1]) 11) = false := by
  have run : fresh.moments (lateLook (.get [1]) 11) =
      [.op fresh 0 maxScan (.set [1] [2] (some 5))] ++
        .op (withDeadline.monotonicTime 10).1 10 maxScan (.get [1]) ::
          ([] ++ .read (withDeadline.turn (.command 2 1 (.op (.get [1])) 10 .default)) (.get [1]) 11 :: []) :=
    rfl
  exact expired_stays_hidden fresh _ [1] (by decide +kernel) run (by decide +kernel) (by decide +kernel)

/-- A read with a timestamp before that of an applied `Get` finds what the `Get` did
not, and a `GetDel` that finds nothing lifts the deadline. -/
theorem expired_key_shown_again : (withDeadline.applyCommandOnlyWithBatchLimits 2 1 (.op (.get [1])) 10 .default).2 =
      .done (.op (.value none)) ∧ (withDeadline.turn (.command 2 1 (.op (.get [1])) 10 .default)).read (.get [1]) 3 =
      .ok (.value (some [2])) ∧ (withDeadline.applyCommandOnlyWithBatchLimits 2 1 (.op (.getDel [1])) 10 .default).2 =
      .done (.op (.value none)) ∧
    (withDeadline.turn (.command 2 1 (.op (.getDel [1])) 10 .default)).read (.get [1]) 11 =
      .ok (.value (some [2])) := by
  decide +kernel

end CrashCourse.KeyValue
