import Tycho.Client.ComponentTracker
import Tycho.Indexer.Rpc

/-! Pages of protocol components: first those of the database, then those of the buffer. -/
namespace Tycho
open Collections List

/-- Arithmetic on 64-bit integers wraps around. -/
def wrapI64 (n : Int) : Int := n.bmod (2 ^ 64)

structure PaginationParams where
  page : Int
  pageSize : Int

def PaginationParams.offset (p : PaginationParams) : Int := wrapI64 (p.page * p.pageSize)

structure PaginationResponse where
  page : Int
  pageSize : Int
  total : Int

structure ProtocolComponentsRequest where
  protocolSystem : String
  componentIds : Option (List ComponentId)
  tvlGt : Option F64
  chain : Chain
  pagination : PaginationParams

/-- Neither is below the other one, nor no number. -/
def F64.ge (x y : F64) : Bool := ¬x.isNan ∧ ¬y.isNan ∧ y.order ≤ x.order

def PendingDeltas.getNewComponents (p : PendingDeltas) (ids : Option (List ComponentId))
    (protocolSystem : String) (minTvl : Option F64) :
    Except PendingDeltasError (List ProtocolComponent) := do
  let entries ← p.entries none protocolSystem
  return entries.flatMap fun entry => entry.newProtocolComponents.values.filter fun comp =>
    (ids.all fun ids => comp.id ∈ ids) &&
      minTvl.all fun tvl => ((entry.componentTvl.lookup comp.id).getD .zero).ge tvl

namespace RpcHandler

def bufferedComponents (r : RpcHandler) (request : ProtocolComponentsRequest) :
    Except PendingDeltasError (List ProtocolComponent) :=
  match r.pendingDeltas with
  | some pending =>
    pending.getNewComponents request.componentIds request.protocolSystem request.tvlGt
  | none => .ok []

/-- The database answers a page of its components and how many there are. -/
def getProtocolComponentsInner (r : RpcHandler) (dbComponents : ProtocolComponentsRequest →
      Except StorageError (List ProtocolComponent × Option Int))
    (request : ProtocolComponentsRequest) :
    Except RpcError (List ProtocolComponent × PaginationResponse) := do
  let params := request.pagination
  let buffered ← (r.bufferedComponents request).mapError .deltasError
  -- all the requested components are in the buffer
  if request.componentIds.any fun ids => ids.length = (buffered.map (·.id)).dedup.length then
    return ((buffered.drop (min (asU64 params.offset) buffered.length)).take
      (asU64 params.pageSize),
      ⟨params.page, params.pageSize, buffered.length⟩)
  let (components, dbTotal) ← (dbComponents request).mapError .storage
  let dbTotal := dbTotal.getD 0
  let bufferOffset := wrapI64 (params.offset - dbTotal)
  let components := if bufferOffset > 0 then
      (buffered.drop (asU64 bufferOffset)).take (asU64 params.pageSize)
    else components ++ buffered.take (asU64 (params.pageSize - components.length))
  return (components, ⟨params.page, params.pageSize, wrapI64 (dbTotal + buffered.length)⟩)

section
variable {A : Type} {db buffered : List A} {n s : Nat}

/-- A page of the database and the first rows of the buffer, or rows of the buffer only. -/
def pageRows (db buffered : List A) (n s : Nat) : List A :=
  if wrapI64 (n - db.length) > 0 then (buffered.drop (asU64 (wrapI64 (n - db.length)))).take s
  else (db.drop n).take s ++ buffered.take (asU64 (s - ((db.drop n).take s).length))

lemma pageRows_eq_slice (hd : db.length < 2 ^ 63) (hs : s < 2 ^ 63) (hn : n < 2 ^ 63) :
    pageRows db buffered n s = ((db ++ buffered).drop n).take s := by
  have hwrap : wrapI64 (n - db.length) = n - db.length := Int.bmod_eq_of_le (by omega) (by omega)
  unfold pageRows
  rw [hwrap]
  split_ifs with hoff
  · have hcast : (n - db.length : Int) = (n - db.length : Nat) := by omega
    have hdb : db.drop n = [] := drop_eq_nil_of_le (by omega)
    rw [hcast, asU64_natCast (by omega), drop_append, hdb, nil_append]
  · have hlen : ((db.drop n).take s).length = min s (db.length - n) := by simp
    have hcast : (s - min s (db.length - n) : Int) = (s - (db.length - n) : Nat) := by omega
    have hzero : n - db.length = 0 := by omega
    rw [hlen, hcast, asU64_natCast (by omega), drop_append, take_append, hzero,
      drop_zero, length_drop]

/-- Beyond every row a page is empty unless the offset wraps around into the buffer. -/
lemma pageRows_eq_nil_iff (hd : db.length + buffered.length < 2 ^ 63) (hs : 1 ≤ s)
    (hs' : s < 2 ^ 63) (hn : 2 ^ 63 ≤ n) : pageRows db buffered n s = [] ↔
      buffered = [] ∨ (buffered.length : Int) ≤ wrapI64 (n - db.length) := by
  have hdb : db.drop n = [] := drop_eq_nil_of_le (by omega)
  have hmax : wrapI64 (n - db.length) < 2 ^ 63 := Int.bmod_lt (by omega)
  unfold pageRows
  rw [hdb, take_nil, length_nil]
  split_ifs with hoff
  · have hcast : wrapI64 (n - db.length) = (wrapI64 (n - db.length)).toNat := by omega
    rw [hcast, asU64_natCast (by omega), take_eq_nil_iff, drop_eq_nil_iff, ← length_eq_zero_iff]
    omega
  · have hcast : (s - (0 : Nat) : Int) = s := by omega
    rw [hcast, asU64_natCast hs', nil_append, take_eq_nil_iff, ← length_eq_zero_iff]
    omega

end

section
variable {r : RpcHandler} {request : ProtocolComponentsRequest} {p s : Nat}
variable {dbComponents : ProtocolComponentsRequest →
  Except StorageError (List ProtocolComponent × Option Int)}
variable {db buffered : List ProtocolComponent}

lemma getProtocolComponentsInner_eq (hids : request.componentIds = none)
    (hpage : request.pagination = ⟨p, s⟩) (hs : s < 2 ^ 63)
    (hbuffer : r.bufferedComponents request = .ok buffered)
    (hdb : dbComponents request = .ok ((db.drop (p * s)).take s, some db.length)) :
    r.getProtocolComponentsInner dbComponents request =
      .ok (pageRows db buffered (p * s) s, ⟨p, s, wrapI64 (db.length + buffered.length)⟩) := by
  have hoffset : wrapI64 (wrapI64 (p * s) - db.length) = wrapI64 (↑(p * s) - db.length) := by
    rw [wrapI64, wrapI64, Int.bmod_sub_bmod, Nat.cast_mul, wrapI64]
  simp only [getProtocolComponentsInner, hids, hpage, hbuffer, hdb, PaginationParams.offset,
    hoffset, asU64_natCast hs, Except.mapError, bind, Except.bind, pure, Except.pure,
    Option.any_none, Option.getD_some, Bool.false_eq_true, if_false, pageRows]

/-- A page holds its rows of the database's components followed by the buffered ones, as long as
the offset fits its integer. -/
theorem getProtocolComponentsInner_eq_slice_iff (hids : request.componentIds = none)
    (hpage : request.pagination = ⟨p, s⟩) (hs : 1 ≤ s) (hs' : s < 2 ^ 63)
    (hbuffered : r.bufferedComponents request = .ok buffered)
    (hdb : dbComponents request = .ok ((db.drop (p * s)).take s, some db.length)) :
    r.getProtocolComponentsInner dbComponents request =
        .ok (((db ++ buffered).drop (p * s)).take s, ⟨p, s, db.length + buffered.length⟩) ↔
      db.length + buffered.length < 2 ^ 63 ∧ (p * s < 2 ^ 63 ∨ buffered = [] ∨
        (buffered.length : Int) ≤ wrapI64 (p * s - db.length)) := by
  have htotal : wrapI64 (db.length + buffered.length) = db.length + buffered.length ↔
      db.length + buffered.length < 2 ^ 63 := by
    constructor
    · intro h
      have hlt : wrapI64 (db.length + buffered.length) < 2 ^ 63 := Int.bmod_lt (by omega)
      omega
    · intro h
      exact Int.bmod_eq_of_le (by omega) (by omega)
  rw [getProtocolComponentsInner_eq hids hpage hs' hbuffered hdb]
  simp only [Except.ok.injEq, Prod.mk.injEq, PaginationResponse.mk.injEq, true_and, htotal]
  rw [and_comm]
  refine and_congr_right fun hfits => ?_
  by_cases hn : p * s < 2 ^ 63
  · exact iff_of_true (pageRows_eq_slice (by omega) hs' hn) (.inl hn)
  · have hnil : ((db ++ buffered).drop (p * s)).take s = [] := by
      rw [drop_eq_nil_of_le (by rw [length_append]; omega), take_nil]
    rw [hnil, pageRows_eq_nil_iff hfits hs hs' (by omega), or_iff_right hn, Nat.cast_mul]

end

/-- A service with one pool in its buffer. -/
def onePool : RpcHandler where
  dbGateway := ⟨fun _ => .ok default, fun _ _ _ _ _ => .ok [], fun _ _ _ _ => .ok []⟩
  pendingDeltas := some (.ofMessages "pools" [{ (default : BlockAggregatedChanges) with
    newProtocolComponents := HashMap.ofList [("pool", default)] }])

def poolsPage (page : Int) : ProtocolComponentsRequest :=
  ⟨"pools", none, none, .ethereum, ⟨page, 4⟩⟩

theorem getProtocolComponentsInner_first_page :
    onePool.getProtocolComponentsInner (fun _ => .ok ([], some 0)) (poolsPage 0) =
      .ok ([default], ⟨0, 4, 1⟩) :=
  (@getProtocolComponentsInner_eq_slice_iff onePool (poolsPage 0) 0 4 (fun _ => .ok ([], some 0)) []
    [default] rfl rfl (by decide) (by decide) rfl rfl).mpr ⟨by decide, .inl (by decide)⟩

/-- The offset of a page wraps around, and the pool is served again. -/
theorem getProtocolComponentsInner_wrapped :
    onePool.getProtocolComponentsInner (fun _ => .ok ([], some 0)) (poolsPage (2 ^ 62 : Nat)) =
        .ok ([default], ⟨(2 ^ 62 : Nat), 4, 1⟩) ∧
      (([] ++ [default] : List ProtocolComponent).drop (2 ^ 62 * 4)).take 4 = [] := by
  constructor
  · have hrows : pageRows [] [(default : ProtocolComponent)] (2 ^ 62 * 4) 4 = [default] := by
      rw [pageRows, if_neg (by decide)]
      simp [asU64]
    rw [@getProtocolComponentsInner_eq onePool (poolsPage (2 ^ 62 : Nat)) (2 ^ 62) 4
      (fun _ => .ok ([], some 0)) [] [default] rfl rfl (by decide) rfl rfl, hrows]
    rfl
  · simp

end RpcHandler
end Tycho
