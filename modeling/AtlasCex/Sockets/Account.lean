import AtlasCex.Lib.Transition
import Mathlib.Algebra.Ring.Int.Defs
import Mathlib.Algebra.Ring.Nat
import Mathlib.Data.List.Sort
/-!
# The private channel of a socket

`pushAccount` (`hub.ts:130-139, 306-355`) on one connection that stays open and subscribed to
`account`, with a session that stays good, reads that succeed and a socket that takes what it is sent.

| here | there |
| --- | --- |
| `listChangedSince` | `order.repository.ts:359-366` |
| `listFillsSince` | `listForUser` with `since` (`user-fills.repository.ts:68-129`) |
| `Label.notify` | `usersChanged`, for this user |
| `Push` | a `pushAccount` from `readAt` on; `orders`, `fills` are its two reads, in either order |
| `Label.finish` | the session check, the sends, the new cursor, and the loop |
| `Label.order`, `Label.fill` | a row becomes visible, with a timestamp that is a little older |

A row is its identity, how often it was updated and its `updated_at`, or `created_at` for a fill;
`changed` marks what became visible after the subscription, `dirty` that something did after the last
notification. The two feeds, of orders and of fills, are treated alike.

* `Caught` — what is not sent yet is in the reach of the next read, or in the hands of the one that
  runs.
* `account_complete` — so nothing is skipped, as long as no read is cut by its limit.
* `batch_skips` — a read that is cut sends the oldest 200, and moves the cursor past all of them.
-/
namespace AtlasCex.Sockets.Account
open List

structure Row where
  id : Nat
  version : Nat
  time : Int
  changed : Bool
deriving DecidableEq, Repr

/-- `PRIVATE_OVERLAP_MS`. -/
def privateOverlapMs : Int := 5000

/-- `PRIVATE_BATCH`. -/
def privateBatch : Nat := 200

/-- `ORDER BY .. ASC LIMIT ..`, of the rows at or after a time. -/
def oldestSince (rows : List Row) (since : Int) : List Row :=
  ((rows.filter (since ≤ ·.time)).insertionSort (·.time ≤ ·.time)).take privateBatch

def listChangedSince (orders : List Row) (since : Int) : List Row := oldestSince orders since

def listFillsSince (fills : List Row) (since : Int) : List Row := oldestSince fills since

structure Feed where
  rows : List Row
  sent : List Row
deriving DecidableEq, Repr

/-- A row of the id gets a new version, or appears. -/
def Feed.update (feed : Feed) (id : Nat) (time : Int) : Feed :=
  { feed with
    rows :=
      if feed.rows.any (·.id = id) then
        feed.rows.map fun r =>
          if r.id = id then { r with version := r.version + 1, time, changed := true } else r
      else feed.rows ++ [⟨id, 0, time, true⟩] }

def Feed.insert (feed : Feed) (id : Nat) (time : Int) : Feed :=
  { feed with rows := feed.rows ++ [⟨id, 0, time, true⟩] }

def Feed.send (feed : Feed) (rows : List Row) : Feed := { feed with sent := feed.sent ++ rows }

structure Push where
  readAt : Int
  since : Int
  orders : Option (List Row)
  fills : Option (List Row)
deriving DecidableEq, Repr

structure State where
  now : Int
  accountCursor : Int
  /-- The push that runs: `pushing`. -/
  push : Option Push
  pushAgain : Bool
  orders : Feed
  fills : Feed
  dirty : Bool
deriving DecidableEq, Repr

/-- The head of the loop, up to its reads. -/
def State.begin (s : State) : State :=
  { s with
    pushAgain := false
    push := some ⟨s.now, s.accountCursor - privateOverlapMs, none, none⟩ }

inductive Label where
  | tick (ms : Nat)
  | order (id : Nat) (time : Int)
  | fill (id : Nat) (time : Int)
  | notify
  | readOrders
  | readFills
  | finish
deriving DecidableEq, Repr

/-- A row becomes visible within five seconds of its timestamp. -/
def State.shows (s : State) (time : Int) : Bool :=
  decide (time ≤ s.now) && decide (s.now ≤ time + 5000)

def step (s : State) : Label → Option State
  | .tick ms => some { s with now := s.now + ms }
  | .order id time =>
    if s.shows time then some { s with orders := s.orders.update id time, dirty := true } else none
  | .fill id time =>
    if s.shows time then some { s with fills := s.fills.insert id time, dirty := true } else none
  | .notify =>
    let s := { s with dirty := false }
    match s.push with
    | some _ => some { s with pushAgain := true }
    | none => some s.begin
  | .readOrders =>
    match s.push with
    | some { readAt, since, orders := none, fills } =>
      some { s with push := some ⟨readAt, since, some (listChangedSince s.orders.rows since), fills⟩ }
    | _ => none
  | .readFills =>
    match s.push with
    | some { readAt, since, orders, fills := none } =>
      some { s with push := some ⟨readAt, since, orders, some (listFillsSince s.fills.rows since)⟩ }
    | _ => none
  | .finish =>
    match s.push with
    | some { readAt, since := _, orders := some orders, fills := some fills } =>
      let s := { s with
        orders := s.orders.send orders
        fills := s.fills.send fills
        accountCursor := readAt }
      some (if s.pushAgain then s.begin else { s with push := none })
    | _ => none

/-- A connection that has just subscribed; whatever the tables hold was there before. -/
def subscribed (now : Int) (orders fills : List Row) : State where
  now
  accountCursor := now
  push := none
  pushAgain := false
  orders := ⟨orders.map fun r => { r with changed := false }, []⟩
  fills := ⟨fills.map fun r => { r with changed := false }, []⟩
  dirty := false

/-! ## One feed -/

/-- What a push that runs has of a feed: when it took the time, and what it has read. -/
abbrev Flight := Option (Int × Option (List Row))

structure Caught (feed : Feed) (now cursor : Int) (flight : Flight) (pushAgain dirty : Bool) :
    Prop where
  cursor_le : cursor ≤ now
  readAt_le : ∀ readAt list, flight = some (readAt, list) → readAt ≤ now
  /-- What is not sent, the next read still reaches. -/
  reach : ∀ r ∈ feed.rows, r.changed = true → r ∈ feed.sent ∨ cursor - privateOverlapMs ≤ r.time
  /-- What the read that runs does not have, the one after it will reach. -/
  beyond : ∀ readAt list, flight = some (readAt, some list) → ∀ r ∈ feed.rows, r.changed = true →
    r ∈ feed.sent ∨ r ∈ list ∨ readAt - privateOverlapMs ≤ r.time
  /-- After a notification, what is not sent is about to be. -/
  owed : dirty = false → ∀ r ∈ feed.rows, r.changed = true → r ∈ feed.sent ∨
    ∃ readAt list, flight = some (readAt, list) ∧
      (pushAgain = true ∨ ∀ rows, list = some rows → r ∈ rows)

section
variable {feed feed' : Feed} {now cursor readAt : Int} {flight : Flight} {pushAgain dirty : Bool}
  {known : Option (List Row)} {list : List Row}

theorem mem_oldestSince {rows : List Row} {since : Int}
    (hfits : (rows.filter (since ≤ ·.time)).length ≤ privateBatch) {r : Row} (hr : r ∈ rows)
    (htime : since ≤ r.time) : r ∈ oldestSince rows since := by
  rw [oldestSince, take_of_length_le (by rw [length_insertionSort]; exact hfits)]
  exact (perm_insertionSort _ _).mem_iff.2 (mem_filter.2 ⟨hr, decide_eq_true htime⟩)

theorem Caught.tick (h : Caught feed now cursor flight pushAgain dirty) (ms : Nat) :
    Caught feed (now + ms) cursor flight pushAgain dirty where
  cursor_le := by have := h.cursor_le; omega
  readAt_le := fun readAt list hf => by have := h.readAt_le readAt list hf; omega
  reach := h.reach
  beyond := h.beyond
  owed := h.owed

/-- Rows that have just become visible are in the reach of every read that starts later. -/
theorem Caught.show (h : Caught feed now cursor flight pushAgain dirty)
    (hsent : feed'.sent = feed.sent)
    (hrows : ∀ r ∈ feed'.rows, r ∈ feed.rows ∨ now - privateOverlapMs ≤ r.time) :
    Caught feed' now cursor flight pushAgain true where
  cursor_le := h.cursor_le
  readAt_le := h.readAt_le
  reach := by
    intro r hr hchanged
    have := h.cursor_le
    rw [hsent]
    rcases hrows r hr with hr | htime
    · exact h.reach r hr hchanged
    · exact .inr (by omega)
  beyond := by
    intro readAt list hf r hr hchanged
    have := h.readAt_le readAt _ hf
    rw [hsent]
    rcases hrows r hr with hr | htime
    · exact h.beyond readAt list hf r hr hchanged
    · exact .inr (.inr (by omega))
  owed := fun hdirty => by cases hdirty

theorem Caught.again (h : Caught feed now cursor (some (readAt, known)) pushAgain dirty) :
    Caught feed now cursor (some (readAt, known)) true false where
  cursor_le := h.cursor_le
  readAt_le := h.readAt_le
  reach := h.reach
  beyond := h.beyond
  owed := fun _ _ _ _ => .inr ⟨readAt, known, rfl, .inl rfl⟩

/-- A push starts: it has read nothing yet. -/
theorem Caught.begin (hcursor : cursor ≤ now) (hreach : ∀ r ∈ feed.rows, r.changed = true →
    r ∈ feed.sent ∨ cursor - privateOverlapMs ≤ r.time) :
    Caught feed now cursor (some (now, none)) false dirty where
  cursor_le := hcursor
  readAt_le := by
    rintro _ _ ⟨⟩
    exact le_rfl
  reach := hreach
  beyond := by
    rintro _ _ ⟨⟩
  owed := fun _ _ _ _ => .inr ⟨now, none, rfl, .inr (by rintro _ ⟨⟩)⟩

theorem Caught.read (h : Caught feed now cursor (some (readAt, none)) pushAgain dirty)
    (hfits : (feed.rows.filter (cursor - privateOverlapMs ≤ ·.time)).length ≤ privateBatch) :
    Caught feed now cursor
      (some (readAt, some (oldestSince feed.rows (cursor - privateOverlapMs)))) pushAgain dirty := by
  have hall : ∀ r ∈ feed.rows, r.changed = true →
      r ∈ feed.sent ∨ r ∈ oldestSince feed.rows (cursor - privateOverlapMs) := by
    intro r hr hchanged
    rcases h.reach r hr hchanged with hsent | htime
    · exact .inl hsent
    · exact .inr (mem_oldestSince hfits hr htime)
  refine ⟨h.cursor_le, ?_, h.reach, ?_, ?_⟩
  · rintro _ _ ⟨⟩
    exact h.readAt_le readAt none rfl
  · rintro _ _ ⟨⟩ r hr hchanged
    exact (hall r hr hchanged).imp_right .inl
  · intro _ r hr hchanged
    rcases hall r hr hchanged with hsent | hlist
    · exact .inl hsent
    · refine .inr ⟨readAt, _, rfl, .inr ?_⟩
      rintro _ ⟨⟩
      exact hlist

/-- What was read is sent, and the cursor moves to when the push began. -/
theorem Caught.sent (h : Caught feed now cursor (some (readAt, some list)) pushAgain dirty) :
    ∀ r ∈ (feed.send list).rows, r.changed = true →
      r ∈ (feed.send list).sent ∨ readAt - privateOverlapMs ≤ r.time := by
  intro r hr hchanged
  rcases h.beyond readAt list rfl r hr hchanged with hsent | hlist | htime
  · exact .inl (mem_append_left _ hsent)
  · exact .inl (mem_append_right _ hlist)
  · exact .inr htime

theorem Caught.finish (h : Caught feed now cursor (some (readAt, some list)) false dirty) :
    Caught (feed.send list) now readAt none false dirty where
  cursor_le := h.readAt_le readAt _ rfl
  readAt_le := by rintro _ _ ⟨⟩
  reach := h.sent
  beyond := by rintro _ _ ⟨⟩
  owed := by
    intro hdirty r hr hchanged
    rcases h.owed hdirty r hr hchanged with hsent | ⟨_, _, ⟨⟩, hagain | hlist⟩
    · exact .inl (mem_append_left _ hsent)
    · cases hagain
    · exact .inl (mem_append_right _ (hlist list rfl))

end

/-! ## Both -/

def State.orderFlight (s : State) : Flight := s.push.map fun p => (p.readAt, p.orders)
def State.fillFlight (s : State) : Flight := s.push.map fun p => (p.readAt, p.fills)

structure Complete (s : State) : Prop where
  orders : Caught s.orders s.now s.accountCursor s.orderFlight s.pushAgain s.dirty
  fills : Caught s.fills s.now s.accountCursor s.fillFlight s.pushAgain s.dirty
  since : ∀ p, s.push = some p → p.since = s.accountCursor - privateOverlapMs

/-- No read is cut: at most a batch of rows is at or after the time it reads from. -/
def Fits (s : State) : Label → Prop
  | .readOrders => ∀ p ∈ s.push, (s.orders.rows.filter (p.since ≤ ·.time)).length ≤ privateBatch
  | .readFills => ∀ p ∈ s.push, (s.fills.rows.filter (p.since ≤ ·.time)).length ≤ privateBatch
  | _ => True

instance (s : State) : ∀ label, Decidable (Fits s label)
  | .readOrders => inferInstanceAs (Decidable (∀ p ∈ s.push,
      (s.orders.rows.filter (p.since ≤ ·.time)).length ≤ privateBatch))
  | .readFills => inferInstanceAs (Decidable (∀ p ∈ s.push,
      (s.fills.rows.filter (p.since ≤ ·.time)).length ≤ privateBatch))
  | .tick _ | .order .. | .fill .. | .notify | .finish => inferInstanceAs (Decidable True)

section
variable {s t : State}

variable {feed : Feed} {time : Int}

theorem update_rows {id : Nat} {r : Row}
    (h : r ∈ (feed.update id time).rows) : r ∈ feed.rows ∨ time = r.time := by
  unfold Feed.update at h
  simp only at h
  split at h
  · obtain ⟨old, hold, rfl⟩ := mem_map.1 h
    split
    · exact .inr rfl
    · exact .inl hold
  · rcases mem_append.1 h with h | h
    · exact .inl h
    · rw [mem_singleton.1 h]
      exact .inr rfl

theorem insert_rows {id : Nat} {r : Row}
    (h : r ∈ (feed.insert id time).rows) : r ∈ feed.rows ∨ time = r.time := by
  rcases mem_append.1 h with h | h
  · exact .inl h
  · rw [mem_singleton.1 h]
    exact .inr rfl

theorem shows_le (h : s.shows time = true) : s.now - privateOverlapMs ≤ time := by
  rw [State.shows, Bool.and_eq_true, decide_eq_true_eq, decide_eq_true_eq] at h
  simp only [privateOverlapMs]
  omega

/-- Something else changes than what the feed has: only whether a notification is due. -/
theorem Caught.stale {now cursor : Int} {flight : Flight} {pushAgain dirty : Bool}
    (h : Caught feed now cursor flight pushAgain dirty) :
    Caught feed now cursor flight pushAgain true :=
  h.show rfl fun _ hr => .inl hr

theorem Complete.begin (hcursor : s.accountCursor ≤ s.now)
    (horders : ∀ r ∈ s.orders.rows, r.changed = true →
      r ∈ s.orders.sent ∨ s.accountCursor - privateOverlapMs ≤ r.time)
    (hfills : ∀ r ∈ s.fills.rows, r.changed = true →
      r ∈ s.fills.sent ∨ s.accountCursor - privateOverlapMs ≤ r.time) : Complete s.begin where
  orders := Caught.begin hcursor horders
  fills := Caught.begin hcursor hfills
  since := by
    rintro _ ⟨⟩
    rfl

theorem Complete.notify (h : Complete s) (hstep : step s .notify = some t) : Complete t := by
  rcases s with ⟨now, cursor, _ | p, pushAgain, orders, fills, dirty⟩
  · cases hstep
    exact Complete.begin h.orders.cursor_le h.orders.reach h.fills.reach
  · cases hstep
    exact ⟨h.orders.again, h.fills.again, h.since⟩

theorem Complete.readOrders (h : Complete s) (hfits : Fits s .readOrders)
    (hstep : step s .readOrders = some t) : Complete t := by
  rcases s with ⟨now, cursor, _ | ⟨readAt, since, _ | list, read⟩, pushAgain, orders, fills, dirty⟩
  · cases hstep
  · cases hstep
    obtain rfl : since = cursor - privateOverlapMs := h.since _ rfl
    refine ⟨Caught.read h.orders (hfits _ rfl), h.fills, ?_⟩
    rintro _ ⟨⟩
    rfl
  · cases hstep

theorem Complete.readFills (h : Complete s) (hfits : Fits s .readFills)
    (hstep : step s .readFills = some t) : Complete t := by
  rcases s with ⟨now, cursor, _ | ⟨readAt, since, read, _ | list⟩, pushAgain, orders, fills, dirty⟩
  · cases hstep
  · cases hstep
    obtain rfl : since = cursor - privateOverlapMs := h.since _ rfl
    refine ⟨h.orders, Caught.read h.fills (hfits _ rfl), ?_⟩
    rintro _ ⟨⟩
    rfl
  · cases hstep

theorem Complete.finish (h : Complete s) (hstep : step s .finish = some t) : Complete t := by
  rcases s with ⟨now, cursor, _ | ⟨readAt, since, _ | list, _ | list'⟩, again, orders, fills, dirty⟩
  · cases hstep
  · cases hstep
  · cases hstep
  · cases hstep
  · have horders : Caught orders now cursor (some (readAt, some list)) again dirty := h.orders
    have hfills : Caught fills now cursor (some (readAt, some list')) again dirty := h.fills
    cases again with
    | true =>
      cases hstep
      exact Complete.begin (horders.readAt_le readAt _ rfl) horders.sent hfills.sent
    | false =>
      cases hstep
      exact ⟨horders.finish, hfills.finish, by rintro _ ⟨⟩⟩

theorem Complete.step {label : Label} (h : Complete s) (hfits : Fits s label)
    (hstep : step s label = some t) : Complete t := by
  cases label with
  | tick ms =>
    cases hstep
    exact ⟨h.orders.tick ms, h.fills.tick ms, h.since⟩
  | order id time =>
    obtain ⟨hshows, heq⟩ := Option.ite_none_right_eq_some.1 hstep
    cases heq
    refine ⟨h.orders.show rfl fun r hr => ?_, h.fills.stale, h.since⟩
    exact (update_rows hr).imp_right (shows_le hshows).trans_eq
  | fill id time =>
    obtain ⟨hshows, heq⟩ := Option.ite_none_right_eq_some.1 hstep
    cases heq
    refine ⟨h.orders.stale, h.fills.show rfl fun r hr => ?_, h.since⟩
    exact (insert_rows hr).imp_right (shows_le hshows).trans_eq
  | notify => exact h.notify hstep
  | readOrders => exact h.readOrders hfits hstep
  | readFills => exact h.readFills hfits hstep
  | finish => exact h.finish hstep

theorem complete_subscribed (now : Int) (orders fills : List Row) :
    Complete (subscribed now orders fills) := by
  have hold : ∀ rows : List Row, ∀ r ∈ rows.map fun r => { r with changed := false },
      r.changed = true → False := by
    intro rows r hr hchanged
    obtain ⟨old, -, rfl⟩ := mem_map.1 hr
    cases hchanged
  have hfeed : ∀ rows : List Row,
      Caught ⟨rows.map fun r => { r with changed := false }, []⟩ now now none false false := by
    intro rows
    refine ⟨le_rfl, ?_, ?_, ?_, ?_⟩
    · rintro _ _ ⟨⟩
    · exact fun r hr hchanged => (hold rows r hr hchanged).elim
    · rintro _ _ ⟨⟩
    · exact fun _ r hr hchanged => (hold rows r hr hchanged).elim
  exact ⟨hfeed orders, hfeed fills, by rintro _ ⟨⟩⟩

end

/-- **The private channel skips nothing that fits**: whatever the tables held before, in every run
whose reads are not cut by their limit, when no push runs and a notification has come after the last
change, the latest version of every order that changed since the subscription has been sent, and so
has every fill. -/
theorem account_complete (now : Int) (orders fills : List Row) (labels : List Label) (t : State)
    (hfits : Lib.Along step Fits (subscribed now orders fills) labels)
    (hrun : Lib.exec step (subscribed now orders fills) labels = some t) (hidle : t.push = none)
    (hnotified : t.dirty = false) :
    (∀ r ∈ t.orders.rows, r.changed = true → r ∈ t.orders.sent) ∧
      ∀ r ∈ t.fills.rows, r.changed = true → r ∈ t.fills.sent := by
  have hcomplete : Complete t := Lib.exec_inv (complete_subscribed now orders fills)
    (fun _ _ _ h hok hstep => h.step hok hstep) hfits hrun
  constructor
  · intro r hr hchanged
    rcases hcomplete.orders.owed hnotified r hr hchanged with hsent | ⟨_, _, hflight, -⟩
    · exact hsent
    · rw [State.orderFlight, hidle] at hflight
      cases hflight
  · intro r hr hchanged
    rcases hcomplete.fills.owed hnotified r hr hchanged with hsent | ⟨_, _, hflight, -⟩
    · exact hsent
    · rw [State.fillFlight, hidle] at hflight
      cases hflight

/-- An order and a fill, the order once more while a push runs, and the push that follows. -/
def twoPushes : List Label :=
  [.tick 1000, .order 7 900, .fill 1 950, .notify, .readFills, .order 7 980, .notify, .readOrders,
    .finish, .tick 6000, .readOrders, .readFills, .finish]

theorem account_complete_two_pushes :
    ∃ t, Lib.exec step (subscribed 0 [] []) twoPushes = some t ∧ t.push = none ∧ t.dirty = false ∧
      t.orders.rows = [⟨7, 1, 980, true⟩] ∧ ⟨7, 1, 980, true⟩ ∈ t.orders.sent := by
  obtain ⟨t, hrun, hidle, hnotified, hrows⟩ : ∃ t,
      Lib.exec step (subscribed 0 [] []) twoPushes = some t ∧ t.push = none ∧ t.dirty = false ∧
      t.orders.rows = [⟨7, 1, 980, true⟩] := Lib.exec_reaches (by decide +kernel)
  refine ⟨t, hrun, hidle, hnotified, hrows, (account_complete 0 [] [] twoPushes t
    (by decide +kernel) hrun hidle hnotified).1 _ ?_ rfl⟩
  rw [hrows]
  exact mem_singleton_self _

def onePush : List Label := [.notify, .readOrders, .readFills, .finish]

/-- 201 orders change, a notification follows and its push ends: the last of them is not sent. Nor
is it by the next push, or any after it: the cursor has passed it by more than the overlap. -/
theorem batch_skips :
    ∃ t, Lib.exec step (subscribed 0 [] [])
        ((List.range 201).map (.order · 0) ++ [.tick 5001] ++ onePush ++ onePush) = some t ∧
      t.push = none ∧ t.dirty = false ∧ ⟨200, 0, 0, true⟩ ∈ t.orders.rows ∧
      ⟨200, 0, 0, true⟩ ∉ t.orders.sent ∧ t.accountCursor - privateOverlapMs = 1 :=
  Lib.exec_reaches (by decide +kernel)

end AtlasCex.Sockets.Account
