import AtlasCex.Lib.Transition
import Mathlib.Data.Finset.Card
/-!
# Requests the engine has seen (`services/matching/src/auth.rs`, ADR-0031)

| here | there |
| --- | --- |
| `verify` | `CallerVerifier::verify`, `auth.rs:134-154`: the clock first, then the signature |
| `ReplayCache` | `auth.rs:201-262` |
| `authenticate` | `http.rs:112-151`, with a verifier configured |

Entries are queued as they arrive and expire by the timestamp the caller chose, so an expired entry
can stand behind one that has not expired; `evictExpired` stops at the first that has not. Nothing
leaves the queue early, and what has left it the clock refuses: `accepted_once`.

Seconds are integers here and `i64` there: a timestamp of `now - 2^63`, whose age has no absolute value
in `i64`, is outside the model. What `verify` finds of the signature is the arrival's field `signature`.
-/
namespace AtlasCex.Server
open List

inductive AuthFailure where
  | timestampOutsideWindow
  | signatureNotBase64
  | signatureWrongLength
  | signatureRejected
  | replayed
  | replayCacheExhausted
deriving DecidableEq, Repr

/-- A request as it arrives: `now` is read once, for the clock check and for the cache. -/
structure Arrival where
  requestId : String
  timestamp : Int
  now : Int
  signature : Except AuthFailure Unit

/-- The pair a captured request repeats. -/
def Arrival.key (a : Arrival) : Int × String := (a.timestamp, a.requestId)

def verify (toleranceSeconds : Int) (a : Arrival) : Except AuthFailure Unit :=
  if (a.now - a.timestamp).natAbs > toleranceSeconds then .error .timestampOutsideWindow
  else a.signature

structure ReplayCache where
  seen : Finset String
  order : List (Int × String)
  ttlSeconds : Int
  capacity : Nat

namespace ReplayCache

def new (ttlSeconds : Int) (capacity : Nat) : ReplayCache := ⟨∅, [], ttlSeconds, capacity⟩

/-- The `while let` over the front of the queue. -/
def evictLoop (ttlSeconds now : Int) :
    Finset String → List (Int × String) → Finset String × List (Int × String)
  | seen, [] => (seen, [])
  | seen, (timestamp, id) :: order =>
    if now - timestamp ≤ ttlSeconds then (seen, (timestamp, id) :: order)
    else evictLoop ttlSeconds now (seen.erase id) order

def evictExpired (cache : ReplayCache) (now : Int) : ReplayCache :=
  let (seen, order) := evictLoop cache.ttlSeconds now cache.seen cache.order
  { cache with seen, order }

def observe (cache : ReplayCache) (requestId : String) (timestamp now : Int) :
    Except AuthFailure Unit × ReplayCache :=
  let cache := cache.evictExpired now
  if requestId ∈ cache.seen then (.error .replayed, cache)
  else if cache.seen.card ≥ cache.capacity then (.error .replayCacheExhausted, cache)
  else (.ok (), { cache with
    seen := insert requestId cache.seen
    order := cache.order ++ [(timestamp, requestId)] })

/-! ## The set and the queue -/

structure Agrees (cache : ReplayCache) : Prop where
  same : ∀ id, id ∈ cache.seen ↔ id ∈ cache.order.map Prod.snd
  distinct : (cache.order.map Prod.snd).Nodup

theorem new_agrees (ttlSeconds : Int) (capacity : Nat) : (new ttlSeconds capacity).Agrees where
  same := fun id => by simp [new]
  distinct := nodup_nil

section
variable {cache : ReplayCache} {now : Int}

/-- Eviction takes each id from both, and an entry it takes has expired. -/
theorem Agrees.evictExpired (h : cache.Agrees) (now : Int) : (cache.evictExpired now).Agrees ∧
    ∀ e ∈ cache.order, e ∈ (cache.evictExpired now).order ∨ cache.ttlSeconds < now - e.1 := by
  obtain ⟨seen, order, ttlSeconds, capacity⟩ := cache
  induction order generalizing seen with
  | nil => exact ⟨h, fun e he => absurd he not_mem_nil⟩
  | cons entry order ih =>
    obtain ⟨timestamp, id⟩ := entry
    simp only [ReplayCache.evictExpired, evictLoop] at ih ⊢
    by_cases hlive : now - timestamp ≤ ttlSeconds
    · rw [if_pos hlive]
      exact ⟨h, fun e he => .inl he⟩
    · rw [if_neg hlive]
      obtain ⟨hid, hdistinct⟩ := nodup_cons.1 h.distinct
      have hrest : (⟨seen.erase id, order, ttlSeconds, capacity⟩ : ReplayCache).Agrees := by
        refine ⟨fun other => ?_, hdistinct⟩
        have hsame := h.same other
        simp only [map_cons, mem_cons] at hsame
        rw [Finset.mem_erase, hsame]
        constructor
        · rintro ⟨hne, rfl | hother⟩
          · exact absurd rfl hne
          · exact hother
        · intro hother
          exact ⟨fun heq => hid (heq ▸ hother), .inr hother⟩
      obtain ⟨hagrees, hkept⟩ := ih _ hrest
      refine ⟨hagrees, fun e he => ?_⟩
      rcases mem_cons.1 he with rfl | he
      · exact .inr (by omega)
      · exact hkept e he

/-- What `observe` leaves, whatever it answers: the entries that have not expired, and the id it
took as new. -/
theorem Agrees.observe (h : cache.Agrees) (requestId : String) (timestamp now : Int) :
    (cache.observe requestId timestamp now).2.Agrees ∧
      (∀ e ∈ cache.order, e ∈ (cache.observe requestId timestamp now).2.order ∨
        cache.ttlSeconds < now - e.1) ∧
      ((cache.observe requestId timestamp now).1 = .ok () →
        (timestamp, requestId) ∈ (cache.observe requestId timestamp now).2.order ∧
        ∀ e ∈ cache.order, e.2 = requestId → cache.ttlSeconds < now - e.1) := by
  obtain ⟨hagrees, hkept⟩ := h.evictExpired now
  simp only [ReplayCache.observe]
  generalize cache.evictExpired now = evicted at hagrees hkept ⊢
  split
  · exact ⟨hagrees, hkept, nofun⟩
  · rename_i hnew
    split
    · exact ⟨hagrees, hkept, nofun⟩
    · have hfresh : requestId ∉ evicted.order.map Prod.snd := mt (hagrees.same requestId).2 hnew
      refine ⟨⟨fun id => ?_, ?_⟩, fun e he => ?_, fun _ => ⟨?_, fun e he hid => ?_⟩⟩
      · simp only [Finset.mem_insert, hagrees.same id, map_append, map_cons,
          map_nil, mem_append, mem_singleton]
        exact or_comm
      · rw [map_append, map_cons, map_nil]
        exact List.Nodup.append hagrees.distinct (nodup_singleton _)
          (disjoint_singleton.2 hfresh)
      · exact (hkept e he).imp_left (mem_append_left _)
      · exact mem_append_right _ (mem_singleton.2 rfl)
      · rcases hkept e he with hin | hexpired
        · exact absurd (mem_map.2 ⟨e, hin, hid⟩) hfresh
        · exact hexpired

theorem observe_ttlSeconds (requestId : String) (timestamp now : Int) :
    (cache.observe requestId timestamp now).2.ttlSeconds = cache.ttlSeconds := by
  simp only [observe]
  split
  · rfl
  · split <;> rfl

end

end ReplayCache

/-- The id of a request is recorded only once its signature is known to be good. -/
def authenticate (toleranceSeconds : Int) (cache : ReplayCache) (a : Arrival) :
    Except AuthFailure Unit × ReplayCache :=
  match verify toleranceSeconds a with
  | .error failure => (.error failure, cache)
  | .ok () => cache.observe a.requestId a.timestamp a.now

theorem verify_clock {toleranceSeconds : Int} {a : Arrival}
    (h : verify toleranceSeconds a = .ok ()) : a.now - a.timestamp ≤ toleranceSeconds := by
  unfold verify at h
  split at h
  · cases h
  · omega

theorem ok_of_isOk {outcome : Except AuthFailure Unit} (h : outcome.isOk) : outcome = .ok () := by
  cases outcome with
  | error failure => cases h
  | ok => rfl

/-- What one arrival leaves: every entry still inside its window, and the request itself if it is let
through, which it is only inside its window and if it was not in the queue. -/
structure Admits (toleranceSeconds : Int) (a : Arrival) (cache next : ReplayCache)
    (ok : Bool) : Prop where
  agrees : next.Agrees
  ttl : next.ttlSeconds = toleranceSeconds
  kept : ∀ e ∈ cache.order, e ∈ next.order ∨ toleranceSeconds < a.now - e.1
  queued : ok → a.key ∈ next.order
  fresh : ok → a.key ∉ cache.order
  inside : ok → a.now - a.timestamp ≤ toleranceSeconds

theorem ReplayCache.Agrees.authenticate {cache : ReplayCache} (h : cache.Agrees) (a : Arrival) :
    Admits cache.ttlSeconds a cache (authenticate cache.ttlSeconds cache a).2
      (authenticate cache.ttlSeconds cache a).1.isOk := by
  unfold AtlasCex.Server.authenticate
  cases hverify : verify cache.ttlSeconds a with
  | error failure => exact ⟨h, rfl, fun e he => .inl he, nofun, nofun, nofun⟩
  | ok =>
    have hclock := verify_clock hverify
    obtain ⟨hagrees, hkept, hok⟩ := h.observe a.requestId a.timestamp a.now
    refine ⟨hagrees, observe_ttlSeconds _ _ _, hkept, fun hpass => ?_, fun hpass hin => ?_,
      fun _ => hclock⟩ <;>
      replace hok := hok (ok_of_isOk hpass)
    · exact hok.1
    · -- an entry of this very request would have had to expire
      have hexpired := hok.2 a.key hin rfl
      exact absurd hclock (Int.not_le.2 hexpired)

/-! ## Arrivals one after another -/

/-- The cache after the arrivals. -/
def served (toleranceSeconds : Int) (capacity : Nat) (arrivals : List Arrival) : ReplayCache :=
  (Lib.run (authenticate toleranceSeconds) (.new toleranceSeconds capacity) arrivals).2

/-- The arrivals that were let through. -/
def letThrough (toleranceSeconds : Int) (capacity : Nat) (arrivals : List Arrival) : List Arrival :=
  let outcomes := (Lib.run (authenticate toleranceSeconds)
    (.new toleranceSeconds capacity) arrivals).1
  ((arrivals.zip outcomes).filter (·.2.isOk)).map Prod.fst

section
variable {toleranceSeconds : Int} {capacity : Nat} {arrivals : List Arrival} {a : Arrival}

theorem served_concat : served toleranceSeconds capacity (arrivals ++ [a]) =
    (authenticate toleranceSeconds (served toleranceSeconds capacity arrivals) a).2 := by
  rw [served, Lib.run_concat]; rfl

theorem letThrough_concat : letThrough toleranceSeconds capacity (arrivals ++ [a]) =
    letThrough toleranceSeconds capacity arrivals ++
      if (authenticate toleranceSeconds (served toleranceSeconds capacity arrivals) a).1.isOk
      then [a] else [] := by
  simp only [letThrough, Lib.run_concat]
  rw [zip_append (Lib.run_length _ _ _).symm, filter_append, map_append]
  congr 1
  rw [zip_cons_cons, zip_nil_right, filter_singleton, served]
  split <;> simp_all

/-- What the cache knows of the arrivals: each that was let through is in the queue, unless the clock
refuses its timestamp by now. -/
structure Remembers (toleranceSeconds : Int) (capacity : Nat) (arrivals : List Arrival) : Prop where
  agrees : (served toleranceSeconds capacity arrivals).Agrees
  ttl : (served toleranceSeconds capacity arrivals).ttlSeconds = toleranceSeconds
  kept : ∀ b ∈ letThrough toleranceSeconds capacity arrivals,
    b.key ∈ (served toleranceSeconds capacity arrivals).order ∨
      ∃ later ∈ arrivals, toleranceSeconds < later.now - b.timestamp
  once : ((letThrough toleranceSeconds capacity arrivals).map Arrival.key).Nodup

theorem Remembers.arrives (h : Remembers toleranceSeconds capacity arrivals)
    (hclock : ∀ b ∈ arrivals, b.now ≤ a.now) :
    Remembers toleranceSeconds capacity (arrivals ++ [a]) := by
  have hadmits := h.agrees.authenticate a
  rw [h.ttl] at hadmits
  have hlast : ∀ {b : Arrival}, toleranceSeconds < a.now - b.timestamp →
      ∃ later ∈ arrivals ++ [a], toleranceSeconds < later.now - b.timestamp :=
    fun hlt => ⟨a, mem_append_right _ (mem_singleton.2 rfl), hlt⟩
  have hkept : ∀ b ∈ letThrough toleranceSeconds capacity arrivals,
      b.key ∈ (served toleranceSeconds capacity (arrivals ++ [a])).order ∨
        ∃ later ∈ arrivals ++ [a], toleranceSeconds < later.now - b.timestamp := by
    intro b hb
    rw [served_concat]
    rcases h.kept b hb with hin | ⟨later, hlater, hlt⟩
    · exact (hadmits.kept b.key hin).imp_right hlast
    · exact .inr ⟨later, mem_append_left _ hlater, hlt⟩
  constructor
  case agrees => rw [served_concat]; exact hadmits.agrees
  case ttl => rw [served_concat]; exact hadmits.ttl
  case kept =>
    intro b hb
    rw [letThrough_concat] at hb
    rcases mem_append.1 hb with hb | hb
    · exact hkept b hb
    · split at hb
      · rename_i hok
        rw [mem_singleton.1 hb, served_concat]
        exact .inl (hadmits.queued hok)
      · exact absurd hb not_mem_nil
  case once =>
    rw [letThrough_concat]
    split
    · rename_i hok
      rw [map_append, map_singleton]
      refine List.Nodup.append h.once (nodup_singleton _) (disjoint_singleton.2 ?_)
      intro hmem
      obtain ⟨b, hb, hkey⟩ := mem_map.1 hmem
      rcases h.kept b hb with hin | ⟨later, hlater, hlt⟩
      · exact hadmits.fresh hok (hkey ▸ hin)
      · -- the clock had refused this timestamp before, and time does not run back
        have htimestamp : b.timestamp = a.timestamp := congrArg Prod.fst hkey
        have hinside := hadmits.inside hok
        have hmono := hclock later hlater
        omega
    · rw [append_nil]
      exact h.once

/-- **No request is let through twice**: whatever timestamps the requests carry, in whatever order, and
whatever the capacity, as long as the clock does not run back. The set and the queue of the cache hold
the same ids, each once. -/
theorem accepted_once (toleranceSeconds : Int) (capacity : Nat) {arrivals : List Arrival}
    (hclock : arrivals.Pairwise (·.now ≤ ·.now)) :
    ((letThrough toleranceSeconds capacity arrivals).map Arrival.key).Nodup ∧
      (served toleranceSeconds capacity arrivals).Agrees := by
  suffices h : Remembers toleranceSeconds capacity arrivals from ⟨h.once, h.agrees⟩
  induction arrivals using List.reverseRecOn with
  | nil => exact ⟨ReplayCache.new_agrees _ _, rfl, fun b hb => absurd hb not_mem_nil,
      nodup_nil⟩
  | append_singleton arrivals a ih =>
    obtain ⟨hbefore, -, hlast⟩ := pairwise_append.1 hclock
    exact (ih hbefore).arrives fun b hb => hlast b hb a (mem_singleton.2 rfl)

/-- A request dated ten seconds ahead outlives a later one; captured and sent again, it is refused in
its window and after it. -/
theorem accepted_once_ahead :
    let ahead (now : Int) : Arrival := ⟨"a", 110, now, .ok ()⟩
    let arrivals := [ahead 100, ⟨"b", 100, 100, .ok ()⟩, ahead 115, ahead 120, ahead 121]
    (letThrough 10 4 arrivals).map Arrival.key = [(110, "a"), (100, "b")] ∧
      ((letThrough 10 4 arrivals).map Arrival.key).Nodup :=
  ⟨by decide, (accepted_once 10 4 (by decide)).1⟩

end

end AtlasCex.Server
