import CrashCourse.KeyValue.State

/-!
Two runs of the same requests, one with a sweep in between: the swept state lacks some
keys that are expired in the other.
-/

namespace CrashCourse.KeyValue
open CrashCourse.Core

def KvOp.internal : KvOp → Bool
  | .purgeExpired _ | .expireSessions _ => true
  | _ => false

namespace Kv
variable {kv next full swept full' swept' : Kv} {key : Bytes} {now : Nat}

/-- The states differ at one key only, where the new one has this value and deadline. -/
structure Changes (kv : Kv) (key : Bytes) (value : Option Bytes) (deadline : Option Nat)
    (next : Kv) : Prop where
  config : next.store.config = kv.store.config
  sessions : next.sessions = kv.sessions
  time : next.lastLeaderTime = kv.lastLeaderTime
  value : ∀ other, next.store.get other = if key = other then value else kv.store.get other
  deadline : ∀ other, next.ttl[other]? = if key = other then deadline else kv.ttl[other]?

variable {deadline deadline' : Option Nat} {value start stop : Option Bytes}

theorem Changes.trans {value' : Option Bytes} (one : Changes kv key value deadline next)
    (two : Changes next key value' deadline' full) : Changes kv key value' deadline' full where
  config := two.config.trans one.config
  sessions := two.sessions.trans one.sessions
  time := two.time.trans one.time
  value other := by
    rw [two.value, one.value]
    split <;> rfl
  deadline other := by
    rw [two.deadline, one.deadline]
    split <;> rfl

theorem clearDeadline_changes (kv : Kv) (key : Bytes) :
    Changes kv key (kv.store.get key) none (kv.clearDeadline key) where
  config := by rw [clearDeadline_store]
  sessions := by unfold clearDeadline; split <;> rfl
  time := by unfold clearDeadline; split <;> rfl
  value other := by
    rw [clearDeadline_store]
    split
    next same => rw [same]
    next => rfl
  deadline other := clearDeadline_ttl kv key other

theorem setDeadline_changes (kv : Kv) (key : Bytes) (deadline : Nat) (held : kv.store.live.contains key) :
    Changes kv key (kv.store.get key) (some deadline) (kv.setDeadline key deadline held) where
  config := (clearDeadline_changes kv key).config
  sessions := (clearDeadline_changes kv key).sessions
  time := (clearDeadline_changes kv key).time
  value := (clearDeadline_changes kv key).value
  deadline other := by
    change ((kv.clearDeadline key).ttl.insert key deadline)[other]? = _
    rw [Std.ExtTreeMap.getElem?_insert, clearDeadline_ttl]
    by_cases same : key = other
    · simp [same]
    · simp [same]

namespace Changes
variable {value : Option Bytes} {deadline : Option Nat} (changes : Changes kv key value deadline next)
include changes

theorem clear : Changes kv key value none (next.clearDeadline key) := by
  have cleared := clearDeadline_changes next key
  rw [changes.value, if_pos rfl] at cleared
  exact changes.trans cleared

theorem set (time : Nat) (held : next.store.live.contains key) :
    Changes kv key value (some time) (next.setDeadline key time held) := by
  have moved := setDeadline_changes next key time held
  rw [changes.value, if_pos rfl] at moved
  exact changes.trans moved

end Changes

theorem Changes.refl (kv : Kv) (key : Bytes) : Changes kv key (kv.store.get key) kv.ttl[key]? kv where
  config := rfl
  sessions := rfl
  time := rfl
  value other := by
    split
    next same => rw [same]
    next => rfl
  deadline other := by
    split
    next same => rw [same]
    next => rfl

theorem putValue_cases (kv : Kv) (key value : Bytes) :
    (∃ error, kv.store.config.admits 0 key value .put = .error error ∧
      kv.putValue key value = .error (.store error)) ∨
    (∃ next, kv.store.config.admits 0 key value .put = .ok () ∧ kv.putValue key value = .ok next ∧
      Changes kv key (some value) kv.ttl[key]? next.1) := by
  have cases := kv.store.put_cases key value
  unfold putValue
  split
  next error refused =>
    rcases cases with ⟨other, denied, same⟩ | ⟨store, -, done⟩
    · rw [refused] at same
      exact .inl ⟨error, by rw [denied, Except.error.inj same], rfl⟩
    · rw [refused] at done
      cases done
  next store done =>
    rcases cases with ⟨other, -, refused⟩ | ⟨-, admitted, -⟩
    · rw [done] at refused
      cases refused
    obtain ⟨live, config, -⟩ := Store.put_ok done
    refine .inr ⟨_, admitted, rfl, config, rfl, rfl, ?_, ?_⟩
    · intro other
      change store.live[other]?.map Prod.snd = _
      rw [live, Std.ExtTreeMap.getElem?_insert]
      by_cases same : key = other
      · simp [same]
      · simp [same, Store.get]
    · intro other
      change kv.ttl[other]? = _
      split
      next same => rw [same]
      next => rfl

theorem discard_cases (kv : Kv) (key : Bytes) : (∃ error, kv.store.config.admits 0 key [] .delete = .error error ∧
      kv.discard key = .error (.store error)) ∨
    (∃ next, kv.store.config.admits 0 key [] .delete = .ok () ∧ kv.discard key = .ok next ∧
      Changes kv key none none next) := by
  have cases := kv.store.delete_cases key
  unfold discard
  split
  next error refused =>
    rcases cases with ⟨other, denied, same⟩ | ⟨store, -, done⟩
    · rw [refused] at same
      exact .inl ⟨error, by rw [denied, Except.error.inj same], rfl⟩
    · rw [refused] at done
      cases done
  next store done =>
    rcases cases with ⟨other, -, refused⟩ | ⟨-, admitted, -⟩
    · rw [done] at refused
      cases refused
    obtain ⟨live, config, -⟩ := Store.delete_ok done
    have cleared := clearDeadline_changes kv key
    refine .inr ⟨_, admitted, rfl, config, cleared.sessions, cleared.time, ?_, cleared.deadline⟩
    intro other
    change store.live[other]?.map Prod.snd = _
    rw [live, Std.ExtTreeMap.getElem?_erase]
    by_cases same : key = other
    · simp [same]
    · simp [same, Store.get]

/-- `swept` is `full` without some of the keys that are expired at `now`. -/
structure Purged (now : Nat) (full swept : Kv) : Prop where
  config : swept.store.config = full.store.config
  sessions : swept.sessions = full.sessions
  time : max swept.lastLeaderTime now = max full.lastLeaderTime now
  keys : ∀ key,
    (swept.store.get key = full.store.get key ∧ swept.ttl[key]? = full.ttl[key]?) ∨
      (full.expired key now ∧ swept.store.get key = none ∧ swept.ttl[key]? = none)

theorem expired_mono {later : Nat} (order : now ≤ later) (expired : kv.expired key now) : kv.expired key later := by
  unfold Kv.expired at expired ⊢
  rw [Option.any_eq_true] at expired ⊢
  obtain ⟨deadline, held, passed⟩ := expired
  exact ⟨deadline, held, decide_eq_true ((of_decide_eq_true passed).trans order)⟩

namespace Purged
variable (purged : Purged now full swept)
include purged

theorem later {time : Nat} (order : now ≤ time) : Purged time full swept := by
  refine ⟨purged.config, purged.sessions, ?_, ?_⟩
  · have time := purged.time
    omega
  intro key
  rcases purged.keys key with same | ⟨expired, gone⟩
  · exact .inl same
  · exact .inr ⟨expired_mono order expired, gone⟩

theorem alive (alive : full.expired key now = false) :
    swept.store.get key = full.store.get key ∧ swept.ttl[key]? = full.ttl[key]? := by
  rcases purged.keys key with same | ⟨expired, -⟩
  · exact same
  · rw [alive] at expired
    cases expired

theorem expired_imp (expired : swept.expired key now) : full.expired key now := by
  rcases purged.keys key with ⟨-, same⟩ | ⟨gone, -⟩
  · unfold Kv.expired at expired ⊢
    rwa [same] at expired
  · exact gone

theorem visible (key : Bytes) : swept.visibleGet key now = full.visibleGet key now := by
  unfold visibleGet
  cases expired : full.expired key now with
  | false =>
    obtain ⟨value, deadline⟩ := purged.alive expired
    have same : swept.expired key now = false := by
      unfold Kv.expired at expired ⊢
      rw [deadline, expired]
    rw [same, value]
  | true =>
    rcases purged.keys key with ⟨-, same⟩ | ⟨-, value, -⟩
    · have same : swept.expired key now = true := by
        unfold Kv.expired at expired ⊢
        rw [same, expired]
      rw [same]
      rfl
    · rw [value]
      simp

theorem ttlSeconds (key : Bytes) : swept.ttlSeconds key now = full.ttlSeconds key now := by
  unfold Kv.ttlSeconds
  rw [purged.visible key]
  split
  · rfl
  next visible =>
    have alive : full.expired key now = false := by
      unfold visibleGet at visible
      split at visible
      · simp at visible
      next alive => simpa using alive
    rw [(purged.alive alive).2]

theorem change {value : Option Bytes} {deadline : Option Nat}
    (one : Changes full key value deadline full') (two : Changes swept key value deadline swept') :
    Purged now full' swept' := by
  constructor
  · rw [two.config, one.config, purged.config]
  · rw [two.sessions, one.sessions, purged.sessions]
  · rw [one.time, two.time, purged.time]
  · intro other
    unfold Kv.expired
    rw [one.value, one.deadline, two.value, two.deadline]
    by_cases same : key = other
    · simp [same]
    · simp only [same, if_false]
      exact purged.keys other

end Purged

def visibleRange (kv : Kv) (start stop : Option Bytes) (now : Nat) : List (Bytes × Bytes) :=
  (kv.store.range start stop).filter fun entry => !kv.expired entry.1 now

theorem mem_range {store : Store} {entry : Bytes × Bytes} : entry ∈ store.range start stop ↔
      store.get entry.1 = some entry.2 ∧ Store.inRange start stop entry.1 := by
  unfold Store.range Store.get
  rw [List.mem_filter, List.mem_map]
  constructor
  · rintro ⟨⟨held, member, rfl⟩, inside⟩
    have here := Std.ExtTreeMap.mem_toList_iff_getElem?_eq_some.mp member
    exact ⟨by rw [here]; rfl, inside⟩
  · rintro ⟨held, inside⟩
    obtain ⟨version, here, value⟩ := Option.map_eq_some_iff.mp held
    refine ⟨⟨(entry.1, version), Std.ExtTreeMap.mem_toList_iff_getElem?_eq_some.mpr here, ?_⟩, inside⟩
    exact Prod.ext rfl value

theorem range_sorted (store : Store) (start stop : Option Bytes) :
    (store.range start stop).Pairwise fun left right => compare left.1 right.1 = .lt := by
  unfold Store.range
  apply List.Pairwise.filter
  rw [List.pairwise_map]
  exact Std.ExtTreeMap.ordered_keys_toList

theorem sorted_ext {left right : List (Bytes × Bytes)}
    (sorted : left.Pairwise fun one two => compare one.1 two.1 = .lt)
    (sorted' : right.Pairwise fun one two => compare one.1 two.1 = .lt)
    (members : ∀ entry, entry ∈ left ↔ entry ∈ right) : left = right := by
  have irreflexive (one : Bytes × Bytes) : ¬ compare one.1 one.1 = .lt := by
    rw [Std.ReflOrd.compare_self]
    simp
  have : Std.Irrefl fun one two : Bytes × Bytes => compare one.1 two.1 = .lt := ⟨irreflexive⟩
  have : Std.Antisymm fun one two : Bytes × Bytes => compare one.1 two.1 = .lt :=
    ⟨fun _ _ one two => absurd (Std.TransCmp.lt_trans one two) (irreflexive _)⟩
  exact sorted.eq_of_mem_iff sorted' members

/-- Dropping hidden entries before the limit is taken changes nothing, when the limit
left nothing visible out. -/
theorem take_filter_of_fair {α : Type} {kept seen : α → Bool} {entries : List α} {limit : Nat}
    (below : ∀ entry ∈ entries, seen entry → kept entry)
    (fair : (entries.take limit).filter seen = (entries.filter seen).take limit) :
    ((entries.filter kept).take limit).filter seen = (entries.filter seen).take limit := by
  have absorb (list : List α) (part : list ⊆ entries) :
      (list.filter kept).filter seen = list.filter seen := by
    rw [List.filter_filter]
    apply List.filter_congr
    intro entry member
    cases shown : seen entry with
    | false => rfl
    | true => simp [below entry (part member) shown]
  have short : (((entries.filter kept).take limit).filter seen).length ≤ limit :=
    (List.length_filter_le ..).trans (List.length_take_le ..)
  have upper : ((entries.filter kept).take limit).filter seen <+: (entries.filter seen).take limit := by
    rw [List.prefix_take_iff]
    refine ⟨?_, short⟩
    rw [← absorb entries (List.Subset.refl _)]
    exact (List.take_prefix ..).filter seen
  have inner : (entries.take limit).filter kept <+: (entries.filter kept).take limit := by
    rw [List.prefix_take_iff]
    exact ⟨(List.take_prefix ..).filter kept,
      (List.length_filter_le ..).trans (List.length_take_le ..)⟩
  have lower : (entries.filter seen).take limit <+: ((entries.filter kept).take limit).filter seen := by
    rw [← fair, ← absorb (entries.take limit) (List.take_subset ..)]
    exact inner.filter seen
  exact upper.eq_of_length_le lower.length_le

theorem Purged.range (purged : Purged now full swept) (start stop : Option Bytes) : swept.store.range start stop =
      (full.store.range start stop).filter fun entry => (swept.store.get entry.1).isSome := by
  apply sorted_ext (range_sorted ..) ((range_sorted ..).filter _)
  intro entry
  rw [List.mem_filter, mem_range, mem_range]
  rcases purged.keys entry.1 with ⟨same, -⟩ | ⟨-, gone, -⟩
  · rw [same]
    constructor
    · rintro ⟨held, inside⟩
      exact ⟨⟨held, inside⟩, by rw [held]; rfl⟩
    · exact And.left
  · simp [gone]

theorem Purged.visibleScan (purged : Purged now full swept) {limit : Nat}
    (fair : full.visibleScan start stop now limit = (full.visibleRange start stop now).take (min limit maxScan)) :
    swept.visibleScan start stop now limit = full.visibleScan start stop now limit := by
  have below : ∀ entry ∈ full.store.range start stop,
      (!full.expired entry.1 now) → (swept.store.get entry.1).isSome := by
    intro entry member shown
    rw [(purged.alive (by simpa using shown)).1, (mem_range.mp member).1]
    rfl
  rw [fair]
  unfold Kv.visibleScan visibleRange Store.scan at *
  rw [← take_filter_of_fair below fair, ← purged.range]
  apply List.filter_congr
  intro entry member
  -- An entry that the sweep left has the deadline it had.
  have held := (mem_range.mp (List.mem_of_mem_take member)).1
  rcases purged.keys entry.1 with ⟨-, same⟩ | ⟨-, gone, -⟩
  · unfold Kv.expired
    rw [same]
  · rw [gone] at held
    cases held

def refuses (kv : Kv) (key value : Bytes) : Bool :=
  match kv.store.config.admits 0 key value .put with
  | .ok _ => false
  | .error _ => true

/-- `Incr` and `Append` do not write under a passed deadline, `GetDel` and `Persist`
do not lift one, and what a scan hides does not use up its limit. -/
def fairOp (kv : Kv) (now : Nat) : KvOp → Bool
  | .incr key delta => !kv.expired key now || kv.refuses key (decimal delta)
  | .append key value => !kv.expired key now || kv.refuses key value
  | .getDel key | .persist key => !kv.expired key now
  | .scan start stop limit =>
    kv.visibleScan start stop now limit = (kv.visibleRange start stop now).take (min limit maxScan)
  | _ => true

structure Agrees {α : Type} (now : Nat) (one two : Kv × Outcome α) : Prop where
  outcome : two.2 = one.2
  purged : one.2 ≠ .panicked → Purged now one.1 two.1

theorem Purged.agrees {α : Type} (purged : Purged now full swept) (outcome : Outcome α) :
    Agrees now (full, outcome) (swept, outcome) := ⟨rfl, fun _ => purged⟩

theorem Purged.putValue (purged : Purged now full swept) (key value : Bytes)
    {rest : { next : Kv // next.store.live.contains key } → Kv × Outcome OpReply}
    {rest' : { next : Kv // next.store.live.contains key } → Kv × Outcome OpReply}
    (agree : ∀ next next', full.store.config.admits 0 key value .put = .ok () →
      Changes full key (some value) full.ttl[key]? next.1 →
      Changes swept key (some value) swept.ttl[key]? next'.1 → Agrees now (rest next) (rest' next')) :
    Agrees now (full.andThen (full.putValue key value) rest)
      (swept.andThen (swept.putValue key value) rest') := by
  have cases := full.putValue_cases key value
  have cases' := swept.putValue_cases key value
  rw [purged.config] at cases'
  rcases cases with ⟨error, denied, refused⟩ | ⟨next, admitted, done, changes⟩ <;>
    rcases cases' with ⟨error', denied', refused'⟩ | ⟨next', admitted', done', changes'⟩
  · rw [denied] at denied'
    obtain rfl := Except.error.inj denied'
    rw [refused, refused']
    exact purged.agrees _
  · rw [denied] at admitted'
    cases admitted'
  · rw [admitted] at denied'
    cases denied'
  · rw [done, done']
    exact agree next next' admitted changes changes'

theorem Purged.discard (purged : Purged now full swept) (key : Bytes) (reply : OpReply) :
    Agrees now (full.andThen (full.discard key) fun next => (next, .done reply))
      (swept.andThen (swept.discard key) fun next => (next, .done reply)) := by
  have cases := full.discard_cases key
  have cases' := swept.discard_cases key
  rw [purged.config] at cases'
  rcases cases with ⟨error, denied, refused⟩ | ⟨next, admitted, done, changes⟩ <;>
    rcases cases' with ⟨error', denied', refused'⟩ | ⟨next', admitted', done', changes'⟩
  · rw [denied] at denied'
    obtain rfl := Except.error.inj denied'
    rw [refused, refused']
    exact purged.agrees _
  · rw [denied] at admitted'
    cases admitted'
  · rw [admitted] at denied'
    cases denied'
  · rw [done, done']
    exact (purged.change changes changes').agrees _

theorem Purged.settleTtl (purged : Purged now full swept) (one : Changes full key value deadline full')
    (two : Changes swept key value deadline' swept') (held : full'.store.live.contains key)
    (held' : swept'.store.live.contains key) (time : Nat) (ttl : Option Nat) (reply : OpReply) :
    Agrees now (full'.settleTtl key held time ttl reply) (swept'.settleTtl key held' time ttl reply) := by
  unfold Kv.settleTtl
  cases ttl with
  | none => exact (purged.change one.clear two.clear).agrees _
  | some ttl =>
    dsimp only
    cases deadlineAfter time ttl with
    | none => exact ⟨rfl, fun fine => absurd rfl fine⟩
    | some deadline => exact (purged.change (one.set deadline held) (two.set deadline held')).agrees _

theorem visibleGet_expired (expired : kv.expired key now) : kv.visibleGet key now = none := by
  unfold visibleGet
  rw [if_pos expired]

theorem alive_of_visible (found : (kv.visibleGet key now).isSome) : kv.expired key now = false := by
  cases expired : kv.expired key now with
  | false => rfl
  | true =>
    rw [visibleGet_expired expired] at found
    cases found

/-- `Incr` and `Append` keep the deadline; on an expired key a fair operation does not
write. -/
theorem Purged.keepDeadline (purged : Purged now full swept) {fresh value : Bytes}
    (fair : !full.expired key now || full.refuses key fresh) (writes : full.expired key now → value = fresh)
    (admitted : full.store.config.admits 0 key value .put = .ok ()) : swept.ttl[key]? = full.ttl[key]? := by
  cases expired : full.expired key now with
  | false => exact (purged.alive expired).2
  | true =>
    rw [writes expired] at admitted
    rw [expired] at fair
    unfold refuses at fair
    rw [admitted] at fair
    cases fair

theorem checkedAddI64_some {left right value : Int} (added : checkedAddI64 left right = some value) :
    value = left + right := by
  unfold checkedAddI64 at added
  split at added
  · exact (Option.some.inj added).symm
  · cases added

theorem incr_absent {delta value : Int}
    (parsed : (parseI64 ((none : Option Bytes).getD [48])).bind (checkedAddI64 · delta) = some value) :
    value = delta := by
  have zero : parseI64 ((none : Option Bytes).getD [48]) = some 0 := by decide
  rw [zero] at parsed
  rw [checkedAddI64_some parsed, Int.zero_add]

theorem applyOp_agrees (purged : Purged now full swept) {time : Nat} (order : now ≤ time)
    (items : Nat) {op : KvOp} (client : op.internal = false) (fair : full.fairOp time op) :
    Agrees now (full.applyOp time items op) (swept.applyOp time items op) := by
  have present := purged.later order
  cases op with
  | set key value ttl =>
    apply purged.putValue
    intro next next' _ changes changes'
    exact purged.settleTtl changes changes' next.2 next'.2 time ttl .ok
  | conditionalSet key value ttl condition =>
    have write : Agrees now
        (full.andThen (full.putValue key value) fun next =>
          next.1.settleTtl key next.2 time ttl (.conditional true))
        (swept.andThen (swept.putValue key value) fun next =>
          next.1.settleTtl key next.2 time ttl (.conditional true)) := by
      apply purged.putValue
      intro next next' _ changes changes'
      exact purged.settleTtl changes changes' next.2 next'.2 time ttl (.conditional true)
    cases condition <;> dsimp only [applyOp] <;> rw [present.visible key] <;> split
    exacts [purged.agrees _, write, purged.agrees _, write]
  | del key => exact purged.discard key (.integer 1)
  | cas key expected value =>
    dsimp only [applyOp]
    rw [present.visible key]
    split
    · exact purged.agrees _
    cases value with
    | none => exact purged.discard key (.cas true)
    | some value =>
      apply purged.putValue
      intro next next' _ changes changes'
      exact (purged.change changes.clear changes'.clear).agrees _
  | incr key delta =>
    dsimp only [applyOp]
    rw [present.visible key]
    split
    · exact purged.agrees _
    next value parsed =>
      apply purged.putValue
      intro next next' admitted changes changes'
      have fresh (expired : full.expired key time) : decimal value = decimal delta := by
        rw [visibleGet_expired expired] at parsed
        rw [incr_absent parsed]
      rw [present.keepDeadline fair fresh admitted] at changes'
      exact (purged.change changes changes').agrees _
  | append key value =>
    dsimp only [applyOp]
    rw [present.visible key]
    apply purged.putValue
    intro next next' admitted changes changes'
    have fresh (expired : full.expired key time) :
        (full.visibleGet key time).getD [] ++ value = value := by
      rw [visibleGet_expired expired]
      rfl
    rw [present.keepDeadline fair fresh admitted] at changes'
    exact (purged.change changes changes').agrees _
  | getSet key value =>
    dsimp only [applyOp]
    rw [present.visible key]
    apply purged.putValue
    intro next next' _ changes changes'
    exact (purged.change changes.clear changes'.clear).agrees _
  | getDel key =>
    dsimp only [applyOp]
    rw [present.visible key]
    split
    · exact purged.discard key _
    · have cleared := clearDeadline_changes swept key
      rw [(present.alive (by simpa [fairOp] using fair)).1] at cleared
      exact (purged.change (clearDeadline_changes full key) cleared).agrees _
  | expire key ttl =>
    dsimp only [applyOp]
    have same := present.visible key
    split
    next found =>
      have alive := present.alive (alive_of_visible found)
      rw [dif_pos (by rw [same]; exact found)]
      have refl := Changes.refl swept key
      rw [alive.1] at refl
      exact purged.settleTtl (Changes.refl full key) refl _ _ time (some ttl) (.integer 1)
    next missing =>
      rw [dif_neg (by rw [same]; exact missing)]
      exact purged.agrees _
  | expireAt key at_ =>
    dsimp only [applyOp]
    have same := present.visible key
    split
    next found =>
      have alive := present.alive (alive_of_visible found)
      rw [dif_pos (by rw [same]; exact found)]
      have refl := Changes.refl swept key
      rw [alive.1] at refl
      exact (purged.change ((Changes.refl full key).set at_ _) (refl.set at_ _)).agrees _
    next missing =>
      rw [dif_neg (by rw [same]; exact missing)]
      exact purged.agrees _
  | ttl key =>
    dsimp only [applyOp]
    rw [present.ttlSeconds key]
    exact purged.agrees _
  | persist key =>
    dsimp only [applyOp]
    have alive := present.alive (by simpa [fairOp] using fair)
    have cleared := clearDeadline_changes swept key
    rw [alive.1] at cleared
    rw [← Std.ExtTreeMap.isSome_getElem?_eq_contains, ← Std.ExtTreeMap.isSome_getElem?_eq_contains, alive.2]
    exact (purged.change (clearDeadline_changes full key) cleared).agrees _
  | purgeExpired upTo | expireSessions upTo => cases client
  | get key =>
    dsimp only [applyOp]
    rw [present.visible key]
    exact purged.agrees _
  | scan start stop limit =>
    dsimp only [applyOp]
    rw [present.visibleScan (of_decide_eq_true fair)]
    exact purged.agrees _
  | ping => exact purged.agrees _

end Kv
end CrashCourse.KeyValue
