import AtlasCex.Trading.Settlement
import AtlasCex.Lib.Selection
/-!
# The order-hold invariant

`Sound books pending` ties the three tables together: what `user_order_locked` holds is what the
live orders have outstanding, order by order; a finished order holds nothing and was released at
most once; `filled_qty` is the sum of the fills, less what the transaction in progress has yet to
record (`pending`, zero between transactions).

Three moves make up every transaction, and each keeps it: the row of a live order changes, and if the
order is finished its hold is released (`Sound.moves`), a fill is settled (`Sound.trade`), an order is
placed with its hold (`Sound.place`).
-/
namespace AtlasCex.Trading

open List
open Ledger (UserId AssetKey LedgerTransaction balance effects userOrderLocked userTradingAvailable)
open Matching (OrderId Side)
open Lib (refuse require bind_eq_ok pure_eq_ok refuse_eq_ok require_eq_ok mapError_eq_ok)

/-! ## What an order has outstanding -/

/-- The part of an order that fixes what it holds. -/
structure SameTerms (o o' : Order) : Prop where
  id : o'.id = o.id
  userId : o'.userId = o.userId
  side : o'.side = o.side
  qty : o'.qty = o.qty
  holdAsset : o'.holdAsset = o.holdAsset
  holdAmount : o'.holdAmount = o.holdAmount

def fillsQty (fills : List Fill) (id : OrderId) : Int :=
  ((fills.filter (·.touches id)).map (·.qty)).sum

namespace Books

variable {books : Books} {o o' : Order}

theorem outstanding_congr (books : Books) (h : SameTerms o o') :
    books.outstanding o' = books.outstanding o := by
  have hc : consumption o' = consumption o := by
    funext fill
    simp only [consumption, h.side, h.id]
  simp only [outstanding, consumed, h.id, h.holdAmount, hc]

/-- What an order adds to its owner's locked balance. -/
def share (books : Books) (user : UserId) (asset : AssetKey) (o : Order) : Int :=
  if o.userId = user ∧ o.holdAsset = asset ∧ o.status.orderHoldsFunds = true then
    books.outstanding o
  else 0

def totalHeld (books : Books) (user : UserId) (asset : AssetKey) : Int :=
  (books.orders.map (books.share user asset)).sum

theorem share_of_holds {user : UserId} {asset : AssetKey} (h : o.status.orderHoldsFunds = true) :
    books.share user asset o =
      if o.userId = user ∧ o.holdAsset = asset then books.outstanding o else 0 := by
  simp [share, h]

theorem share_of_terminal {user : UserId} {asset : AssetKey}
    (h : o.status.isTerminalOrder = true) : books.share user asset o = 0 := by
  have hnot : ¬o.status.orderHoldsFunds = true := by
    rw [OrderStatus.holds_iff, h]; nofun
  simp [share, hnot]

theorem findById_mem {id : OrderId} (h : books.findById id = some o) :
    o ∈ books.orders ∧ o.id = id :=
  ⟨mem_of_find?_eq_some h, by simpa using find?_some h⟩

theorem eq_of_id (hnd : (books.orders.map (·.id)).Nodup) (ho : o ∈ books.orders)
    (ho' : o' ∈ books.orders) (h : o.id = o'.id) : o = o' :=
  inj_on_of_nodup_map hnd ho ho' h

theorem mem_replace {x : Order} (h : x ∈ (books.replace o').orders) :
    x = o' ∨ x ∈ books.orders ∧ x.id ≠ o'.id := by
  obtain ⟨y, hy, rfl⟩ := mem_map.1 h
  split
  · exact .inl rfl
  · rename_i hne
    exact .inr ⟨hy, hne⟩

@[simp] theorem replace_ids : (books.replace o').orders.map (·.id) = books.orders.map (·.id) :=
  Lib.map_key_replace

@[simp] theorem replace_outstanding : (books.replace o').outstanding = books.outstanding := rfl

/-! ## Postings -/

theorem releases_append (ledger : List LedgerTransaction) (t : LedgerTransaction) (id : OrderId) :
    releases (ledger ++ [t]) id = releases ledger id ++
      (if t.kind = .orderRelease ∧ t.referenceId = id then [t] else []) := by
  unfold releases
  rw [filter_append, filter_singleton]
  simp

theorem post_outstanding (books : Books) (t : LedgerTransaction) (o : Order) :
    (books.post t).outstanding o = books.outstanding o -
      (if t.kind = .orderRelease ∧ t.referenceId = o.id then lockedDebits t else 0) := by
  simp only [outstanding, post, released, releases_append, map_append, sum_append]
  split
  · simp only [map_cons, map_nil, sum_cons, sum_nil]; omega
  · simp only [map_nil, sum_nil]; omega

theorem post_outstanding_of_ne {t : LedgerTransaction} (h : t.kind ≠ .orderRelease) :
    (books.post t).outstanding = books.outstanding := by
  funext o
  rw [post_outstanding, if_neg fun hc => h hc.1, Int.sub_zero]

end Books

/-- The release of an order's hold. -/
def releaseOf (o : Order) (amount : Int) : LedgerTransaction :=
  ⟨.orderRelease, "order", o.id,
    [Ledger.debit (userOrderLocked o.userId o.holdAsset) o.holdAsset amount,
      Ledger.credit (userTradingAvailable o.userId o.holdAsset) o.holdAsset amount]⟩

theorem lockedDebits_releaseOf (o : Order) (amount : Int) :
    lockedDebits (releaseOf o amount) = amount := by
  simp [lockedDebits, releaseOf, Ledger.debit, Ledger.credit, userOrderLocked,
    userTradingAvailable]

theorem effects_releaseOf (o : Order) (amount : Int) (account : Ledger.AccountRef) :
    effects (releaseOf o amount).entries account =
      Ledger.at_ (userOrderLocked o.userId o.holdAsset) (-amount) account +
        Ledger.at_ (userTradingAvailable o.userId o.holdAsset) amount account := by
  simp [effects, releaseOf]

theorem releaseOutstanding_eq {books books' : Books} {o : Order} {requireUnfilled : Bool}
    (h : releaseOutstanding books o requireUnfilled = .ok books') :
    ∃ amount, books.outstandingHold o.id = some amount ∧ 0 ≤ amount ∧
      (amount = 0 ∧ books' = books ∨ books' = books.post (releaseOf o amount)) := by
  simp only [releaseOutstanding, bind_eq_ok, require_eq_ok, refuse_eq_ok] at h
  obtain ⟨amount, hamount, -, hnonneg, -, -, h⟩ := h
  refine ⟨amount, hamount, by omega, ?_⟩
  split at h
  · cases h
    exact .inl ⟨‹_›, rfl⟩
  · simp only [bind_eq_ok, mapError_eq_ok, pure_eq_ok, Ledger.postOrderRelease] at h
    obtain ⟨t, ⟨-, -, hbuild⟩, rfl⟩ := h
    rw [Ledger.buildTransaction_eq hbuild]
    exact .inr rfl

/-- What a release of `amount` does to the books. -/
structure Released (books books' : Books) (o : Order) (amount : Int) : Prop where
  orders : books'.orders = books.orders
  fills : books'.fills = books.fills
  outstanding : ∀ x : Order,
    books'.outstanding x = books.outstanding x - if x.id = o.id then amount else 0
  once : (releases books'.ledger o.id).length ≤ (releases books.ledger o.id).length + 1
  others : ∀ id, id ≠ o.id → releases books'.ledger id = releases books.ledger id
  balance : ∀ account, balance books'.ledger account = balance books.ledger account +
    (Ledger.at_ (userOrderLocked o.userId o.holdAsset) (-amount) account +
      Ledger.at_ (userTradingAvailable o.userId o.holdAsset) amount account)
  references : ∀ t ∈ books'.ledger, t.kind = .orderRelease → t ∈ books.ledger ∨ t.referenceId = o.id

theorem releaseOutstanding_ok {books books' : Books} {o : Order} {requireUnfilled : Bool}
    (h : releaseOutstanding books o requireUnfilled = .ok books') :
    ∃ amount, books.outstandingHold o.id = some amount ∧ 0 ≤ amount ∧
      Released books books' o amount := by
  obtain ⟨amount, hamount, hnonneg, ⟨rfl, rfl⟩ | rfl⟩ := releaseOutstanding_eq h
  · exact ⟨0, hamount, hnonneg, rfl, rfl, by simp, Nat.le_succ _, fun _ _ => rfl, by simp [Ledger.at_],
      fun _ ht _ => .inl ht⟩
  · refine ⟨amount, hamount, hnonneg, rfl, rfl, fun x => ?_, ?_, fun id hne => ?_, fun account => ?_,
      fun t ht _ => ?_⟩
    · rw [Books.post_outstanding, lockedDebits_releaseOf]
      simp [releaseOf, eq_comm]
    · simp [Books.post, Books.releases_append, releaseOf]
    · simp [Books.post, Books.releases_append, releaseOf, hne.symm]
    · rw [Books.post, Ledger.balance_append, effects_releaseOf]
    · rcases mem_append.1 ht with ht | ht
      · exact .inl ht
      · rw [mem_singleton.1 ht]
        exact .inr rfl

/-! ## The invariant -/

/-- `o'` is the row of the live order `o` with `traded` more filled. -/
structure Recorded (o : Order) (traded : Int) (o' : Order) : Prop where
  live : o.status.orderHoldsFunds = true
  same : SameTerms o o'
  filled : o'.filledQty = o.filledQty + traded
  within : o.filledQty ≤ o.qty → o'.filledQty ≤ o'.qty

/-- The row is written; an order that is finished has what is outstanding released. -/
def Follows (books : Books) (o' : Order) (books' : Books) : Prop :=
  o'.status.orderHoldsFunds = true ∧ books' = books.replace o' ∨
    o'.status.isTerminalOrder = true ∧ ∃ requireUnfilled,
      releaseOutstanding (books.replace o') o' requireUnfilled = .ok books'

theorem Follows.orders {books books' : Books} {o' : Order} (h : Follows books o' books') :
    books'.orders = (books.replace o').orders := by
  rcases h with ⟨-, rfl⟩ | ⟨-, _, hrel⟩
  · rfl
  · obtain ⟨_, -, -, hrel⟩ := releaseOutstanding_ok hrel
    exact hrel.orders

/-- What the books say of the order in one row. -/
structure RowOk (books : Books) (pending : OrderId → Int) (o : Order) : Prop where
  filled : o.filledQty + pending o.id = fillsQty books.fills o.id
  within : o.filledQty ≤ o.qty
  holding : o.status.orderHoldsFunds = true →
    0 ≤ books.outstanding o ∧ releases books.ledger o.id = []
  terminal : o.status.isTerminalOrder = true →
    books.outstanding o = 0 ∧ (releases books.ledger o.id).length ≤ 1

structure Sound (books : Books) (pending : OrderId → Int) : Prop where
  nodup : (books.orders.map (·.id)).Nodup
  rows : ∀ o ∈ books.orders, RowOk books pending o
  locked : ∀ user asset,
    balance books.ledger (userOrderLocked user asset) = books.totalHeld user asset
  available : ∀ user asset, 0 ≤ balance books.ledger (userTradingAvailable user asset)
  known : ∀ fill ∈ books.fills, ∀ id, fill.touches id = true → id ∈ books.orders.map (·.id)
  references : ∀ t ∈ books.ledger, t.kind = .orderRelease → t.referenceId ∈ books.orders.map (·.id)

variable {books books' : Books} {pending pending' : OrderId → Int} {o o' : Order}

theorem RowOk.congr (h : RowOk books pending o) (hpending : pending' o.id = pending o.id)
    (hfills : fillsQty books'.fills o.id = fillsQty books.fills o.id)
    (hout : books'.outstanding o = books.outstanding o)
    (hreleases : releases books'.ledger o.id = releases books.ledger o.id) :
    RowOk books' pending' o where
  filled := by rw [hpending, hfills, h.filled]
  within := h.within
  holding := by
    rw [hout, hreleases]
    exact h.holding
  terminal := by
    rw [hout, hreleases]
    exact h.terminal

namespace Sound

/-- One row changes, and with it what its order adds to the locked balance. -/
theorem moved (h : Sound books pending) (ho : o ∈ books.orders) (hid : o'.id = o.id)
    (horders : books'.orders = (books.replace o').orders) (hfills : books'.fills = books.fills)
    (hself : RowOk books' pending' o')
    (hrest : ∀ x : Order, x.id ≠ o.id → pending' x.id = pending x.id ∧
      books'.outstanding x = books.outstanding x ∧
      releases books'.ledger x.id = releases books.ledger x.id)
    (hlocked : ∀ user asset, balance books'.ledger (userOrderLocked user asset) =
      balance books.ledger (userOrderLocked user asset) - books.share user asset o +
        books'.share user asset o')
    (havailable : ∀ user asset, 0 ≤ balance books'.ledger (userTradingAvailable user asset))
    (hrefs : ∀ t ∈ books'.ledger, t.kind = .orderRelease →
      t.referenceId ∈ books.orders.map (·.id)) : Sound books' pending' := by
  have hids : books'.orders.map (·.id) = books.orders.map (·.id) := by
    rw [horders, Books.replace_ids]
  refine ⟨hids ▸ h.nodup, fun x hx => ?_, fun user asset => ?_, havailable,
    by rw [hids, hfills]; exact h.known, hids ▸ hrefs⟩
  · rcases Books.mem_replace (horders ▸ hx) with rfl | ⟨hx, hne⟩
    · exact hself
    · obtain ⟨hpending, hout, hreleases⟩ := hrest x (hid ▸ hne)
      exact (h.rows x hx).congr hpending (by rw [hfills]) hout hreleases
  · have hothers : ∀ x ∈ books.orders, x.id ≠ o.id →
        books'.share user asset x = books.share user asset x := by
      intro x _ hne
      simp only [Books.share, (hrest x hne).2.1]
    have htotal : books'.totalHeld user asset = (books.orders.map (books'.share user asset)).sum -
        books'.share user asset o + books'.share user asset o' := by
      rw [Books.totalHeld, horders]
      exact Lib.sum_map_replace _ h.nodup ho hid
    rw [hlocked, h.locked, htotal, Lib.sum_map_change h.nodup ho hothers, Books.totalHeld]
    omega

/-- A live order takes up what it traded. -/
theorem moves {traded : Int} (h : Sound books pending) (ho : o ∈ books.orders)
    (hm : Recorded o traded o') (hnext : Follows books o' books')
    (hdone : pending' o.id + traded = pending o.id)
    (hother : ∀ id, id ≠ o.id → pending' id = pending id) : Sound books' pending' := by
  have hrow := h.rows o ho
  have hout := Books.outstanding_congr books hm.same
  have hfilled : o'.filledQty + pending' o'.id = fillsQty books.fills o'.id := by
    rw [hm.filled, hm.same.id, ← hrow.filled]
    omega
  rcases hnext with ⟨hnew, rfl⟩ | ⟨hnew, requireUnfilled, hrel⟩
  · refine h.moved ho hm.same.id rfl rfl ⟨hfilled, hm.within hrow.within, fun _ => ?_, fun hend => ?_⟩
      (fun x hne => ⟨hother _ hne, rfl, rfl⟩) (fun user asset => ?_) h.available h.references
    · rw [Books.replace_outstanding, hout, hm.same.id]
      exact hrow.holding hm.live
    · rw [(OrderStatus.holds_iff _).1 hnew] at hend
      cases hend
    · rw [Books.share_of_holds hm.live, Books.share_of_holds hnew, Books.replace_outstanding, hout,
        hm.same.userId, hm.same.holdAsset, Int.sub_add_cancel]
      rfl
  · obtain ⟨amount, hamount, hnonneg, hrel⟩ := releaseOutstanding_ok hrel
    -- what is released is what the order had outstanding
    have heq : amount = books.outstanding o := by
      rw [Books.outstandingHold, Option.map_eq_some_iff] at hamount
      obtain ⟨x, hx, rfl⟩ := hamount
      obtain ⟨hx, hid⟩ := Books.findById_mem hx
      have hmem : o' ∈ (books.replace o').orders := mem_map.2 ⟨o, ho, if_pos hm.same.id.symm⟩
      rw [Books.eq_of_id (by rw [Books.replace_ids]; exact h.nodup) hx hmem hid,
        Books.replace_outstanding, hout]
    refine h.moved ho hm.same.id hrel.orders hrel.fills
      ⟨hrel.fills ▸ hfilled, hm.within hrow.within, fun hlive => ?_, fun _ => ⟨?_, ?_⟩⟩
      (fun x hne => ⟨hother _ hne, ?_, hrel.others _ (hm.same.id ▸ hne)⟩) (fun user asset => ?_)
      (fun user asset => ?_) fun t ht hrelease => ?_
    · rw [OrderStatus.holds_iff, hnew] at hlive
      cases hlive
    · rw [hrel.outstanding, if_pos rfl, Books.replace_outstanding, hout, heq, Int.sub_self]
    · have honce := hrel.once
      rwa [hm.same.id, show (books.replace o').ledger = books.ledger from rfl,
        (hrow.holding hm.live).2, ← hm.same.id] at honce
    · rw [hrel.outstanding, if_neg (hm.same.id ▸ hne), Int.sub_zero, Books.replace_outstanding]
    · rw [hrel.balance, Books.share_of_holds hm.live, Books.share_of_terminal hnew, ← heq,
        hm.same.userId, hm.same.holdAsset]
      simp only [Ledger.at_locked_locked, Ledger.at_available_locked, Int.add_zero]
      split <;> simp [Books.replace, Int.sub_eq_add_neg]
    · have havailable := h.available user asset
      rw [hrel.balance]
      simp only [Ledger.at_locked_available, Ledger.at_available_available, Books.replace]
      split <;> omega
    · rcases hrel.references t ht hrelease with ht | hid
      · exact h.references t ht hrelease
      · rw [hid, hm.same.id]
        exact mem_map_of_mem ho

/-- A live order moves without trading. -/
theorem unchanged (h : Sound books pending) (ho : o ∈ books.orders) (hm : Recorded o 0 o')
    (hnext : Follows books o' books') : Sound books' pending :=
  h.moves ho hm hnext (Int.add_zero _) fun _ _ => rfl

end Sound

/-! ## A fill is settled -/

/-- The terms of a fill: two live orders, one on each side, and what it costs each. -/
structure Matched (books : Books) (buyer seller : Order) (fill : Fill)
    (input : Ledger.TradeSettlementPosting) : Prop where
  bought : buyer ∈ books.orders
  sold : seller ∈ books.orders
  distinct : buyer.id ≠ seller.id
  buying : buyer.status.orderHoldsFunds = true
  selling : seller.status.orderHoldsFunds = true
  touches : ∀ id, fill.touches id = true ↔ id = buyer.id ∨ id = seller.id
  qty : 0 < input.qty
  fee : input.sellerFee ≤ input.notional
  spent : consumption buyer fill = input.notional + input.buyerFee
  given : consumption seller fill = input.qty
  buyerId : input.buyerId = buyer.userId
  sellerId : input.sellerId = seller.userId
  quote : input.quoteAsset = buyer.holdAsset
  base : input.baseAsset = seller.holdAsset

/-- The posting of a fill. -/
def tradeOf (input : Ledger.TradeSettlementPosting) : LedgerTransaction :=
  ⟨.tradeSettle, "fill", input.fillId, input.legs.filter (·.amount ≠ 0)⟩

theorem tradeOf_kind (input : Ledger.TradeSettlementPosting) :
    (tradeOf input).kind ≠ .orderRelease := by
  simp [tradeOf]

theorem effects_tradeOf_locked (input : Ledger.TradeSettlementPosting) (user : UserId)
    (asset : AssetKey) :
    effects (tradeOf input).entries (userOrderLocked user asset) =
      -(if input.buyerId = user ∧ input.quoteAsset = asset then input.notional + input.buyerFee
        else 0) -
      (if input.sellerId = user ∧ input.baseAsset = asset then input.qty else 0) := by
  rw [tradeOf, Ledger.effects_filter]
  simp only [effects, Ledger.TradeSettlementPosting.legs, map_cons, map_nil,
    Ledger.debit_effect, Ledger.credit_effect, Ledger.at_locked_locked, Ledger.at_available_locked,
    Ledger.at_fees_locked, sum_cons, sum_nil]
  split <;> split <;> omega

theorem effects_tradeOf_available {input : Ledger.TradeSettlementPosting} (hqty : 0 < input.qty)
    (hfee : input.sellerFee ≤ input.notional) (user : UserId) (asset : AssetKey) :
    0 ≤ effects (tradeOf input).entries (userTradingAvailable user asset) := by
  rw [tradeOf, Ledger.effects_filter]
  simp only [effects, Ledger.TradeSettlementPosting.legs, map_cons, map_nil,
    Ledger.debit_effect, Ledger.credit_effect, Ledger.at_locked_available,
    Ledger.at_available_available, Ledger.at_fees_available, sum_cons, sum_nil]
  split <;> split <;> omega

namespace Books

/-- The books with a fill recorded and posted. -/
def settled (books : Books) (fill : Fill) (input : Ledger.TradeSettlementPosting) : Books :=
  ({ books with fills := books.fills ++ [fill] } : Books).post (tradeOf input)

variable {books : Books} {fill : Fill} {input : Ledger.TradeSettlementPosting} {o : Order}

theorem settled_outstanding : (books.settled fill input).outstanding o = books.outstanding o -
    (if fill.touches o.id = true then consumption o fill else 0) := by
  rw [settled, post_outstanding_of_ne (tradeOf_kind input), outstanding, outstanding, consumed,
    filter_append, filter_singleton, map_append, sum_append, ← consumed]
  cases fill.touches o.id with
  | true =>
    simp only [cond_true, map_cons, map_nil, sum_cons, sum_nil, if_true]
    omega
  | false => simp

theorem settled_releases (id : OrderId) :
    releases (books.settled fill input).ledger id = releases books.ledger id := by
  rw [settled, post, releases_append, if_neg fun hc => tradeOf_kind input hc.1]
  exact append_nil _

theorem settled_fillsQty (id : OrderId) : fillsQty (books.settled fill input).fills id =
    fillsQty books.fills id + (if fill.touches id = true then fill.qty else 0) := by
  rw [settled, post, fillsQty, filter_append, filter_singleton, map_append,
    sum_append, ← fillsQty]
  cases fill.touches id <;> simp

/-- Each of the two orders holds that much less. -/
theorem settled_totalHeld {buyer seller : Order} (hnd : (books.orders.map (·.id)).Nodup)
    (h : Matched books buyer seller fill input) (user : UserId) (asset : AssetKey) :
    (books.settled fill input).totalHeld user asset = books.totalHeld user asset +
      effects (tradeOf input).entries (userOrderLocked user asset) := by
  have hshare : ∀ x ∈ books.orders, (books.settled fill input).share user asset x =
      books.share user asset x -
        (if x.id = buyer.id then
          if input.buyerId = user ∧ input.quoteAsset = asset then input.notional + input.buyerFee
          else 0
        else 0) -
        (if x.id = seller.id then
          if input.sellerId = user ∧ input.baseAsset = asset then input.qty else 0
        else 0) := by
    intro x hx
    by_cases hb : x.id = buyer.id
    · obtain rfl := eq_of_id hnd hx h.bought hb
      rw [share_of_holds h.buying, share_of_holds h.buying, settled_outstanding,
        if_pos ((h.touches _).2 (.inl rfl)), if_pos rfl, if_neg h.distinct, h.spent, h.buyerId,
        h.quote]
      split <;> omega
    · by_cases hs : x.id = seller.id
      · obtain rfl := eq_of_id hnd hx h.sold hs
        rw [share_of_holds h.selling, share_of_holds h.selling, settled_outstanding,
          if_pos ((h.touches _).2 (.inr rfl)), if_neg hb, if_pos rfl, h.given, h.sellerId, h.base]
        split <;> omega
      · have hnot : ¬fill.touches x.id = true := fun hc => ((h.touches _).1 hc).elim hb hs
        rw [share, share, settled_outstanding, if_neg hnot, if_neg hb, if_neg hs]
        simp only [Int.sub_zero]
  rw [totalHeld, show (books.settled fill input).orders = books.orders from rfl,
    map_congr_left hshare,
    Lib.sum_map_sub_at (fun x => books.share user asset x - _) _ hnd h.sold,
    Lib.sum_map_sub_at _ _ hnd h.bought, effects_tradeOf_locked, totalHeld]
  omega

end Books

/-- A fill is recorded and posted; its quantity has yet to reach the two rows. -/
theorem Sound.trade {books : Books} {fill : Fill} {input : Ledger.TradeSettlementPosting}
    {buyer seller : Order} (h : Sound books fun _ => 0)
    (hm : Matched books buyer seller fill input)
    (hbuyer : 0 ≤ (books.settled fill input).outstanding buyer)
    (hseller : 0 ≤ (books.settled fill input).outstanding seller) :
    Sound (books.settled fill input)
      fun id => if fill.touches id = true then fill.qty else 0 := by
  have hids : ∀ id, fill.touches id = true → id ∈ books.orders.map (·.id) := by
    intro id hid
    rcases (hm.touches id).1 hid with rfl | rfl
    · exact mem_map_of_mem hm.bought
    · exact mem_map_of_mem hm.sold
  refine ⟨h.nodup, fun o ho => ?_, ?_, ?_, ?_, ?_⟩
  · have hrow := h.rows o ho
    by_cases htouches : fill.touches o.id = true
    · -- one of the two orders, both live
      have hlive : o.status.orderHoldsFunds = true ∧ 0 ≤ (books.settled fill input).outstanding o := by
        rcases (hm.touches _).1 htouches with hid | hid
        · rw [Books.eq_of_id h.nodup ho hm.bought hid]
          exact ⟨hm.buying, hbuyer⟩
        · rw [Books.eq_of_id h.nodup ho hm.sold hid]
          exact ⟨hm.selling, hseller⟩
      refine ⟨?_, hrow.within, fun _ => ⟨hlive.2, ?_⟩, fun hdone => ?_⟩
      · rw [Books.settled_fillsQty, ← hrow.filled, Int.add_zero]
      · rw [Books.settled_releases]
        exact (hrow.holding hlive.1).2
      · rw [(OrderStatus.holds_iff _).1 hlive.1] at hdone
        cases hdone
    · refine hrow.congr (if_neg htouches) ?_ ?_ (Books.settled_releases _)
      · rw [Books.settled_fillsQty, if_neg htouches, Int.add_zero]
      · rw [Books.settled_outstanding, if_neg htouches, Int.sub_zero]
  · intro user asset
    rw [Books.settled_totalHeld h.nodup hm, ← h.locked, Books.settled, Books.post,
      Ledger.balance_append]
  · intro user asset
    have h1 := h.available user asset
    have h2 := effects_tradeOf_available hm.qty hm.fee user asset
    rw [Books.settled, Books.post, Ledger.balance_append]
    show 0 ≤ balance books.ledger _ + _
    omega
  · intro x hx id hid
    rcases mem_append.1 hx with hx | hx
    · exact h.known x hx id hid
    · obtain rfl := mem_singleton.1 hx
      exact hids id hid
  · intro t ht hrelease
    rcases mem_append.1 ht with ht | ht
    · exact h.references t ht hrelease
    · obtain rfl := mem_singleton.1 ht
      exact absurd hrelease (tradeOf_kind input)

/-! ## An order is placed -/

/-- The hold of an order. -/
def holdOf (o : Order) : LedgerTransaction :=
  ⟨.orderHold, "order", o.id,
    [Ledger.debit (userTradingAvailable o.userId o.holdAsset) o.holdAsset o.holdAmount,
      Ledger.credit (userOrderLocked o.userId o.holdAsset) o.holdAsset o.holdAmount]⟩

theorem effects_holdOf (o : Order) (account : Ledger.AccountRef) :
    effects (holdOf o).entries account =
      Ledger.at_ (userTradingAvailable o.userId o.holdAsset) (-o.holdAmount) account +
        Ledger.at_ (userOrderLocked o.userId o.holdAsset) o.holdAmount account := by
  simp [effects, holdOf]

namespace Books

/-- The books with an order placed and its hold posted. -/
def placed (books : Books) (o : Order) : Books :=
  ({ books with orders := books.orders ++ [o] } : Books).post (holdOf o)

variable {books : Books} {o : Order}

theorem placed_outstanding : (books.placed o).outstanding = books.outstanding := by
  rw [placed, post_outstanding_of_ne (by simp [holdOf])]
  rfl

theorem placed_releases (id : OrderId) :
    releases (books.placed o).ledger id = releases books.ledger id := by
  rw [placed, post, releases_append, if_neg fun hc => by simp [holdOf] at hc]
  exact append_nil _

end Books

namespace Sound

/-- Nothing in the books refers to an order id that is new. -/
theorem fresh (h : Sound books pending) {id : OrderId} (hid : id ∉ books.orders.map (·.id)) :
    books.fills.filter (·.touches id) = [] ∧ releases books.ledger id = [] := by
  constructor
  · rw [filter_eq_nil_iff]
    exact fun x hx hc => hid (h.known x hx id hc)
  · rw [releases, filter_eq_nil_iff]
    intro t ht hc
    simp only [Bool.and_eq_true, decide_eq_true_eq] at hc
    exact hid (hc.2 ▸ h.references t ht hc.1)

theorem place (h : Sound books fun _ => 0) (hid : o.id ∉ books.orders.map (·.id))
    (hlive : o.status.orderHoldsFunds = true) (hnone : o.filledQty = 0) (hqty : 0 < o.qty)
    (hamount : 0 < o.holdAmount)
    (hfunds : o.holdAmount ≤ balance books.ledger (userTradingAvailable o.userId o.holdAsset)) :
    Sound (books.placed o) fun _ => 0 := by
  obtain ⟨hfills, hreleases⟩ := h.fresh hid
  have hids : (books.placed o).orders.map (·.id) = books.orders.map (·.id) ++ [o.id] := by
    simp [Books.placed, Books.post]
  have hout : books.outstanding o = o.holdAmount := by
    simp [Books.outstanding, consumed, released, hfills, hreleases]
  have hrow : ∀ x ∈ (books.placed o).orders, x ∈ books.orders ∨ x = o := by
    intro x hx
    simpa [Books.placed, Books.post] using hx
  refine ⟨?_, fun x hx => ?_, ?_, ?_, ?_, ?_⟩
  · rw [hids, nodup_append]
    refine ⟨h.nodup, nodup_singleton _, ?_⟩
    intro a ha b hb heq
    exact hid (mem_singleton.1 hb ▸ heq ▸ ha)
  · rcases hrow x hx with hx | rfl
    · exact (h.rows x hx).congr rfl rfl (by rw [Books.placed_outstanding]) (Books.placed_releases _)
    · refine ⟨?_, by omega, fun _ => ?_, fun hdone => ?_⟩
      · rw [hnone, fillsQty, show (books.placed x).fills = books.fills from rfl, hfills]
        rfl
      · rw [Books.placed_outstanding, Books.placed_releases]
        exact ⟨by omega, hreleases⟩
      · rw [(OrderStatus.holds_iff _).1 hlive] at hdone
        cases hdone
  · intro user asset
    have htotal : (books.placed o).totalHeld user asset =
        books.totalHeld user asset + books.share user asset o := by
      have hshare : (books.placed o).share user asset = books.share user asset := by
        funext x
        rw [Books.share, Books.share, Books.placed_outstanding]
      simp [Books.totalHeld, hshare, show (books.placed o).orders = books.orders ++ [o] from rfl]
    rw [htotal, ← h.locked, Books.share_of_holds hlive, hout, Books.placed, Books.post,
      Ledger.balance_append, effects_holdOf]
    simp only [Ledger.at_available_locked, Ledger.at_locked_locked, Int.zero_add]
  · intro user asset
    have havailable := h.available user asset
    rw [Books.placed, Books.post, Ledger.balance_append, effects_holdOf]
    simp only [Ledger.at_available_available, Ledger.at_locked_available]
    split
    · rename_i heq
      obtain ⟨rfl, rfl⟩ := heq
      omega
    · omega
  · intro x hx id hid'
    rw [hids]
    exact mem_append_left _ (h.known x hx id hid')
  · intro t ht hrelease
    rw [hids]
    rcases mem_append.1 ht with ht | ht
    · exact mem_append_left _ (h.references t ht hrelease)
    · obtain rfl := mem_singleton.1 ht
      simp [holdOf] at hrelease

end Sound

end AtlasCex.Trading
