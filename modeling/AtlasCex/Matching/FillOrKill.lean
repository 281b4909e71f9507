import AtlasCex.Matching.Simulation
/-!
# The dry run and the match loop (`engine.rs:244-328`, `:453-495`)

| here | there |
| --- | --- |
| `Engine.placement` | the placement a `Place` or an `Amend` makes, with the engine it is made in |
| `Judged` | what `place` has checked before the fill-or-kill check, `engine.rs:209-241` |
| `takenBy` | the quantity of the fills of a taker |

`fillable_qty` walks the ladder once and changes nothing; the loop takes the best maker again and
again, pruning what is dead and removing the taker's own. Both are known to count what the list of
resting orders has within reach (`fillableQty_eq`, `RefEngine.matched_remaining`). What is added here
is that the fills of a placement are what the loop takes off its quantity: `dry_run_agrees`.
-/
namespace AtlasCex.Matching

/-- The placement a command makes: an amend's is made once the order it replaces is out of the book. -/
def Engine.placement (e : Engine) : Command → Option (Engine × OrderId × OrderRequest)
  | .place orderId request => some (e, orderId, request)
  | .amend orderId newOrderId price qty =>
    match e.book.remove orderId with
    | (some existing, book) =>
      some ({ e with book }, newOrderId, replacement existing newOrderId price qty)
    | (none, _) => none
  | .cancel _ | .setStatus _ => none

structure Judged (e : Engine) (orderId : OrderId) (request : OrderRequest) (limit : Option Nat) :
    Prop where
  absent : e.book.contains orderId = false
  valid : e.validate request = none
  posts : ¬(request.postOnly ∧ e.wouldCross request.side (request.price.getD 0))
  limit : collarLimit e.market e.referencePrice request = some limit

def Event.takenQty (id : OrderId) : Event → Nat
  | .fill f => if f.takerOrderId = id then f.qty else 0
  | _ => 0

def takenBy (id : OrderId) (events : List Event) : Nat := (events.map (Event.takenQty id)).sum

section
variable {used : OrderId → Prop} {e : Engine} {r : RefEngine} {orderId : OrderId}
  {request : OrderRequest} {limit : Option Nat}

/-- All that is left to decide is fill-or-kill. -/
theorem Judged.admission (h : Judged e orderId request limit) (seq : Nat) :
    e.admission seq orderId request =
      if request.timeInForce = .fok ∧
          e.fillableQty request.side limit request.accountId request.stpMode < request.qty then
        .error [.expired seq orderId request.qty]
      else .ok limit := by
  simp only [Engine.admission, h.absent, h.valid, if_neg h.posts, h.limit, Bool.false_eq_true,
    if_false]

/-! ## The loop takes what it fills -/

theorem takenBy_append (id : OrderId) (events later : List Event) :
    takenBy id (events ++ later) = takenBy id events + takenBy id later := by
  simp [takenBy]

theorem takenBy_fill (t : Taker) (events : List Event) (maker : OrderId) (price qty : Nat) :
    takenBy t.orderId [t.fill events maker price qty] = qty := by
  simp [takenBy, Event.takenQty, Taker.fill]

/-- A turn moves quantity from what remains of the taker to its fills. -/
theorem RefMatch.turn_taken (t : Taker) {qty : Nat} (s : RefMatch)
    (h : takenBy t.orderId s.events + s.remaining = qty) :
    takenBy t.orderId (s.turn t).val.events + (s.turn t).val.remaining = qty := by
  have hturn := s.turns t
  generalize s.turn t = next at hturn
  cases hturn with
  | done | empty | uncrossed | stopTaker => exact h
  | dropMaker m | stopBoth m =>
    simp only [Lib.Turn.val]
    rw [takenBy_append]
    exact h
  | trade m =>
    simp only [Lib.Turn.val]
    rw [takenBy_append, takenBy_fill]
    omega

theorem RefEngine.matched_taken (r : RefEngine) (t : Taker) (qty : Nat) :
    takenBy t.orderId (r.matched t qty).events + (r.matched t qty).remaining = qty :=
  Lib.loop_induct (P := fun s : RefMatch => takenBy t.orderId s.events + s.remaining = qty)
    (RefMatch.turn_taken t) _ (Nat.zero_add qty)

/-- The engine's loop, on a book that holds a list of orders, takes what the dry run counted. -/
theorem EngineRefines.matchLoop_taken (h : EngineRefines used e r) (t : Taker) (qty : Nat) :
    takenBy t.orderId (matchLoop t (e.book.openOrderCount + 1) ⟨e.book, [], qty, false⟩).events =
      min qty (e.fillableQty t.side t.limit t.accountId t.stpMode) := by
  have hloop := matchLoop_sim t h.book h.price qty
  have htaken := r.matched_taken t qty
  have hrem := RefEngine.matched_remaining h.book.nodup (h.book.covers t.side.opposite) qty
  rw [← fillableQty_eq h.book] at hrem
  rw [hloop.events]
  omega

theorem disposition_taken (id : OrderId) (seq : Nat) (events : List Event) (remaining : Nat)
    (stop : Bool) :
    takenBy id (disposition seq orderId request events remaining stop).1 = takenBy id events := by
  have hd := disposed seq orderId request events remaining stop
  generalize disposition seq orderId request events remaining stop = d at hd
  cases hd <;> rw [takenBy_append] <;> rfl

/-! ## A placement -/

theorem EngineRefines.place_taken (h : EngineRefines used e r) (seq : Nat) (timestampMs : Int)
    (hjudged : Judged e orderId request limit)
    (hlive : ¬(request.timeInForce = .fok ∧
      e.fillableQty request.side limit request.accountId request.stpMode < request.qty)) :
    takenBy orderId (e.place seq timestampMs orderId request).1 =
      min request.qty (e.fillableQty request.side limit request.accountId request.stpMode) := by
  unfold Engine.place
  rw [hjudged.admission, if_neg hlive]
  simp only
  rw [disposition_taken]
  exact h.matchLoop_taken (request.taker seq timestampMs orderId limit) request.qty

theorem Judged.place_killed (h : Judged e orderId request limit) (seq : Nat) (timestampMs : Int)
    (hkill : request.timeInForce = .fok ∧
      e.fillableQty request.side limit request.accountId request.stpMode < request.qty) :
    e.place seq timestampMs orderId request = ([.expired seq orderId request.qty], e) := by
  unfold Engine.place
  rw [h.admission, if_pos hkill]

end

/-! ## Every placement -/

/-- A command that makes a placement: the events of an amend begin with the order it takes out. -/
structure Places (e : Engine) (c : SequencedCommand) (at_ : Engine) (orderId : OrderId)
    (request : OrderRequest) (before : List Event) : Prop where
  applies : e.apply c = (before ++ (at_.place c.seq c.timestampMs orderId request).1,
    (at_.place c.seq c.timestampMs orderId request).2)
  untaken : takenBy orderId before = 0
  direct : request.timeInForce = .fok → before = [] ∧ at_ = { e with lastSeq := c.seq }

theorem EngineRefines.placement {used : OrderId → Prop} {e : Engine} {r : RefEngine}
    (h : EngineRefines used e r) {c : SequencedCommand} {at_ : Engine} {orderId : OrderId}
    {request : OrderRequest}
    (hplaces : { e with lastSeq := c.seq }.placement c.command = some (at_, orderId, request)) :
    (∃ r', EngineRefines used at_ r') ∧ ∃ before, Places e c at_ orderId request before := by
  have hbase : EngineRefines used { e with lastSeq := c.seq } r := ⟨h.market, h.book, h.price⟩
  cases hc : c.command with
  | place id order =>
    rw [hc] at hplaces
    cases hplaces
    exact ⟨⟨r, hbase⟩, [], by rw [Engine.apply, hc]; rfl, rfl, fun _ => ⟨rfl, rfl⟩⟩
  | amend id newId price qty =>
    rw [hc, Engine.placement] at hplaces
    have hremove := hbase.remove id
    cases hfind : r.resting.find? (·.orderId = id) with
    | none =>
      rw [hfind] at hremove
      simp only [hremove] at hplaces
      cases hplaces
    | some existing =>
      rw [hfind] at hremove
      obtain ⟨book, hbook, hrel⟩ := hremove
      simp only [hbook] at hplaces
      cases hplaces
      refine ⟨⟨_, hrel⟩, [.cancelled c.seq id existing.remaining], ?_, rfl, nofun⟩
      simp only [Engine.apply, hc, Engine.amend, hbook]
      rfl
  | cancel id => rw [hc] at hplaces; cases hplaces
  | setStatus status => rw [hc] at hplaces; cases hplaces

/-- **The dry run agrees with the match**: in every engine that a stream of never reused ids leads to,
and for every placement that gets as far as matching, its fills are the lesser of its quantity and what
`fillable_qty` counts on the book before. A fill-or-kill order is filled for its whole quantity, or
expires whole with nothing changed but the sequence. -/
theorem dry_run_agrees (market : MarketConfig) {before : List SequencedCommand}
    (hfresh : FreshIds before) (c : SequencedCommand) {at_ : Engine} {orderId : OrderId}
    {request : OrderRequest} {limit : Option Nat} :
    let e := ((Engine.new market).run before).2
    let available := at_.fillableQty request.side limit request.accountId request.stpMode
    { e with lastSeq := c.seq }.placement c.command = some (at_, orderId, request) →
    Judged at_ orderId request limit →
      (¬(request.timeInForce = .fok ∧ available < request.qty) →
        takenBy orderId (e.apply c).1 = min request.qty available) ∧
      (request.timeInForce = .fok →
        takenBy orderId (e.apply c).1 = request.qty ∨
          (takenBy orderId (e.apply c).1 = 0 ∧
            e.apply c = ([.expired c.seq orderId request.qty], { e with lastSeq := c.seq }))) := by
  intro e available hplaces hjudged
  have hrel := (run_refines market hfresh List.prefix_rfl).2
  obtain ⟨⟨r, hat⟩, first, happly, huntaken, hdirect⟩ := hrel.placement hplaces
  have htaken : takenBy orderId (e.apply c).1 =
      takenBy orderId (at_.place c.seq c.timestampMs orderId request).1 := by
    rw [happly, takenBy_append, huntaken, Nat.zero_add]
  have hloop := hat.place_taken c.seq c.timestampMs hjudged
  rw [← htaken] at hloop
  refine ⟨hloop, fun hfok => ?_⟩
  by_cases hkill : available < request.qty
  · have hkilled := hjudged.place_killed c.seq c.timestampMs ⟨hfok, hkill⟩
    obtain ⟨rfl, rfl⟩ := hdirect hfok
    rw [hkilled] at htaken happly
    exact .inr ⟨htaken, happly⟩
  · refine .inl ((hloop fun hboth => hkill hboth.2).trans ?_)
    omega

/-- Carol's fill-or-kill buy of one SOL, after which she asks for more than rests. -/
theorem dry_run_agrees_sample :
    let e := ((Engine.new sampleMarket).run (sampleStream.take 3)).2
    let buy (qty : Nat) := sampleOrder "carol" .buy .fok 1000 qty
    FreshIds (sampleStream.take 3) ∧
      takenBy "c" (e.apply ⟨4, 0, .place "c" (buy 1000000000)⟩).1 = 1000000000 ∧
      (takenBy "c" (e.apply ⟨4, 0, .place "c" (buy 9000000000)⟩).1 = 9000000000 ∨
        takenBy "c" (e.apply ⟨4, 0, .place "c" (buy 9000000000)⟩).1 = 0 ∧
          e.apply ⟨4, 0, .place "c" (buy 9000000000)⟩ =
            ([.expired 4 "c" 9000000000], { e with lastSeq := 4 })) := by
  have hfresh : FreshIds (sampleStream.take 3) := by decide
  have hjudged : Judged { ((Engine.new sampleMarket).run (sampleStream.take 3)).2 with lastSeq := 4 }
      "c" (sampleOrder "carol" .buy .fok 1000 9000000000) (some 1000) :=
    ⟨by decide +kernel, by decide +kernel, by decide +kernel, by decide +kernel⟩
  exact ⟨hfresh, by decide +kernel, (dry_run_agrees sampleMarket hfresh
    ⟨4, 0, .place "c" (sampleOrder "carol" .buy .fok 1000 9000000000)⟩ rfl hjudged).2 rfl⟩

end AtlasCex.Matching
