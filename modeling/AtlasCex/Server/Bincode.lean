import AtlasCex.Server.Wal
/-!
# The codec of the samples

A `Codec` that does on the samples' commands what the two crates do: `bincode` with fixed-width
little-endian integers, `u32` variant indices (`types.rs:77-150`) and length-prefixed strings, and
CRC-32, reflected, with the polynomial `0xEDB88320`. No general result uses it.
-/
namespace AtlasCex.Server
open List
open Matching
open Lib (Format)

def i64 : Format Int :=
  Format.via u64 (fun t => (t % 2 ^ 64).toNat)
    (fun n => some (if n < 2 ^ 63 then (n : Int) else (n : Int) - 2 ^ 64))
    (fun t => -2 ^ 63 ≤ t ∧ t < 2 ^ 63)
    (fun t h => by
      simp only [Option.some.injEq]
      split <;> omega)

def string : Format String := Format.utf8 u64

def requestFormat : Format OrderRequest :=
  Format.via
    (string.pair ((Format.enum u32 [Side.buy, .sell]).pair ((Format.enum u32 [OrderType.limit, .market]).pair
      ((Format.enum u32 [TimeInForce.gtc, .ioc, .fok]).pair ((Format.option u64).pair (u64.pair
        ((Format.enum (Format.uint 1) [false, true]).pair
          ((Format.enum u32 [StpMode.cancelTaker, .cancelMaker, .cancelBoth]).pair string))))))))
    (fun r => (r.clientOrderId, r.side, r.orderType, r.timeInForce, r.price, r.qty, r.postOnly,
      r.stpMode, r.accountId))
    (fun (clientOrderId, side, orderType, timeInForce, price, qty, postOnly, stpMode, accountId) =>
      some ⟨clientOrderId, side, orderType, timeInForce, price, qty, postOnly, stpMode, accountId⟩)
    (fun _ => True) (fun _ _ => rfl)

def placeFormat : Format (OrderId × OrderRequest) := string.pair requestFormat
def amendFormat : Format (OrderId × OrderId × Nat × Nat) := string.pair (string.pair (u64.pair u64))
def statusFormat : Format MarketStatus :=
  Format.enum u32 [MarketStatus.preOpen, .open, .postOnly, .halted]

def commandFormat : Format Command where
  put
    | .place orderId request => u32.put 0 ++ placeFormat.put (orderId, request)
    | .cancel orderId => u32.put 1 ++ string.put orderId
    | .amend orderId newOrderId price qty =>
      u32.put 2 ++ amendFormat.put (orderId, newOrderId, price, qty)
    | .setStatus status => u32.put 3 ++ statusFormat.put status
  get bytes := (u32.get bytes).bind fun (tag, rest) =>
    match tag with
    | 0 => (placeFormat.get rest).map fun ((orderId, request), rest) => (.place orderId request, rest)
    | 1 => (string.get rest).map fun (orderId, rest) => (.cancel orderId, rest)
    | 2 => (amendFormat.get rest).map fun ((orderId, newOrderId, price, qty), rest) =>
      (.amend orderId newOrderId price qty, rest)
    | 3 => (statusFormat.get rest).map fun (status, rest) => (.setStatus status, rest)
    | _ => none
  Fits
    | .place orderId request => placeFormat.Fits (orderId, request)
    | .cancel orderId => string.Fits orderId
    | .amend orderId newOrderId price qty => amendFormat.Fits (orderId, newOrderId, price, qty)
    | .setStatus status => statusFormat.Fits status
  get_put c rest h := by
    have htag : ∀ tag, tag < 4 → ∀ body : List UInt8,
        u32.get (u32.put tag ++ (body ++ rest)) = some (tag, body ++ rest) :=
      fun tag htag body => u32.get_put tag _ (Nat.lt_trans htag (by decide))
    cases c with
    | place orderId request =>
      simp only [append_assoc, htag 0 (by decide), Option.bind_some,
        placeFormat.get_put _ _ h, Option.map_some]
    | cancel orderId =>
      simp only [append_assoc, htag 1 (by decide), Option.bind_some, string.get_put _ _ h,
        Option.map_some]
    | amend orderId newOrderId price qty =>
      simp only [append_assoc, htag 2 (by decide), Option.bind_some,
        amendFormat.get_put _ _ h, Option.map_some]
    | setStatus status =>
      simp only [append_assoc, htag 3 (by decide), Option.bind_some,
        statusFormat.get_put _ _ h, Option.map_some]

def sequencedFormat : Format SequencedCommand :=
  Format.via (u64.pair (i64.pair commandFormat))
    (fun c => (c.seq, c.timestampMs, c.command))
    (fun (seq, timestampMs, command) => some ⟨seq, timestampMs, command⟩)
    (fun _ => True) (fun _ _ => rfl)

theorem Representable.request_fits {r : OrderRequest} (h : Representable.request r) :
    requestFormat.Fits r := by
  obtain ⟨hclient, hprice, hqty, haccount⟩ := h
  have hside : r.side ∈ [Side.buy, .sell] ∧ [Side.buy, .sell].idxOf r.side < 256 ^ 4 := by
    cases r.side <;> decide
  have htype : r.orderType ∈ [OrderType.limit, .market] ∧
      [OrderType.limit, .market].idxOf r.orderType < 256 ^ 4 := by cases r.orderType <;> decide
  have htif : r.timeInForce ∈ [TimeInForce.gtc, .ioc, .fok] ∧
      [TimeInForce.gtc, .ioc, .fok].idxOf r.timeInForce < 256 ^ 4 := by
    cases r.timeInForce <;> decide
  have hpost : r.postOnly ∈ [false, true] ∧ [false, true].idxOf r.postOnly < 256 ^ 1 := by
    cases r.postOnly <;> decide
  have hstp : r.stpMode ∈ [StpMode.cancelTaker, .cancelMaker, .cancelBoth] ∧
      [StpMode.cancelTaker, .cancelMaker, .cancelBoth].idxOf r.stpMode < 256 ^ 4 := by
    cases r.stpMode <;> decide
  exact ⟨trivial, ⟨trivial, hclient⟩, hside, htype, htif, hprice, hqty, hpost, hstp,
    ⟨trivial, haccount⟩⟩

theorem Representable.fits {c : SequencedCommand} (h : Representable c) : sequencedFormat.Fits c := by
  obtain ⟨hseq, htime, hcommand⟩ := h
  have hi64 : (c.timestampMs % 2 ^ 64).toNat < 256 ^ 8 := by omega
  refine ⟨trivial, hseq, ⟨htime, hi64⟩, ?_⟩
  show commandFormat.Fits c.command
  cases hc : c.command with
  | place orderId r =>
    rw [hc] at hcommand
    exact ⟨⟨trivial, hcommand.1⟩, Representable.request_fits hcommand.2⟩
  | cancel orderId =>
    rw [hc] at hcommand
    exact ⟨trivial, hcommand⟩
  | amend orderId newOrderId price qty =>
    rw [hc] at hcommand
    obtain ⟨hold, hnew, hprice, hqty⟩ := hcommand
    exact ⟨⟨trivial, hold⟩, ⟨trivial, hnew⟩, hprice, hqty⟩
  | setStatus status =>
    have hstatus : status ∈ [MarketStatus.preOpen, .open, .postOnly, .halted] ∧
        [MarketStatus.preOpen, .open, .postOnly, .halted].idxOf status < 256 ^ 4 := by
      cases status <;> decide
    exact hstatus

def crcBit (c : UInt32) : UInt32 := if c &&& 1 = 1 then (c >>> 1) ^^^ 0xEDB88320 else c >>> 1

def crcByte (c : UInt32) (b : UInt8) : UInt32 := Nat.iterate crcBit 8 (c ^^^ b.toUInt32)

def crc32 (bytes : List UInt8) : UInt32 := bytes.foldl crcByte 0xFFFFFFFF ^^^ 0xFFFFFFFF

-- the check value of CRC-32, over the digits 1 to 9
example : crc32 [0x31, 0x32, 0x33, 0x34, 0x35, 0x36, 0x37, 0x38, 0x39] = 0xCBF43926 := by
  decide +kernel

def bincode : Codec where
  bincode := sequencedFormat
  crc32 := crc32
  fits _ h := h.fits
  nonempty c := by
    show 0 < (u64.put c.seq ++ _).length
    rw [length_append]
    have : (u64.put c.seq).length = 8 := Format.length_putUint 8 c.seq
    omega

end AtlasCex.Server
