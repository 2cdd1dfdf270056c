import Execlaw.RollingWindow
import Execlaw.Templates
/-!
# HttpFetchLimits — the rate limit of HttpFetch nodes (`server/src/automation_runtime.rs`)

A limiter keeps the times of the calls it let pass, by automation.  A node without a limit of its own asks the limiter
of the host, so its calls keep within the limit in every minute; a node with one asks a limiter made for the call, which
lets every call pass (`fetches_limited_iff`).
-/
namespace Execlaw

open RollingWindow

/-! ## The limiter -/

structure HttpFetchRateLimiter where
  /-- The times of calls, by automation; in nanoseconds. -/
  windows : String → List Nat
  callsPerMinute : Nat

namespace HttpFetchRateLimiter

def oneMinute : Nat := 60 * 1000000000

def new (callsPerMinute : Nat) : HttpFetchRateLimiter := ⟨fun _ => [], callsPerMinute⟩

def tryCall (limiter : HttpFetchRateLimiter) (automationId : String) (now : Nat) : Bool × HttpFetchRateLimiter :=
  let window := (limiter.windows automationId).filter fun t => now - t < oneMinute
  if limiter.callsPerMinute ≤ window.length then
    (false, { limiter with windows := Function.update limiter.windows automationId window })
  else (true, { limiter with windows := Function.update limiter.windows automationId (window ++ [now]) })

end HttpFetchRateLimiter

open HttpFetchRateLimiter (oneMinute)

/-! ## The node -/

def asU64 : Json → Option Nat
  | .num text =>
    let digits := text.toList
    let n := digits.foldl (fun n d => 10 * n + (d.toNat - 48)) 0
    if digits ≠ [] ∧ digits.all Char.isDigit ∧ n < 2 ^ 64 then some n else none
  | _ => none

def rateLimitPerMinute (node : NodeDef) : Option Nat := (node.config.get "rate_limit_per_minute").bind asU64

def automationIdOf (state : NodeState) : String :=
  (((state.find? (·.1 == "__automation_id__")).map Prod.snd).bind Json.asStr).getD "unknown"

def checkRate (limiter : HttpFetchRateLimiter) (node : NodeDef) (state : NodeState) (now : Nat) :
    Option String × HttpFetchRateLimiter :=
  -- `n as u32`
  let nodeLimit := (rateLimitPerMinute node).map (· % 2 ^ 32)
  let effectiveLimit := match nodeLimit with
    | some 0 => none
    | some n => some n
    | none => some limiter.callsPerMinute
  match effectiveLimit with
  | none => (none, limiter)
  | some limit =>
    let automationId := automationIdOf state
    let call :=
      if nodeLimit.isSome then (((HttpFetchRateLimiter.new limit).tryCall automationId now).1, limiter)
      else limiter.tryCall automationId now
    if call.1 then (none, call.2)
    else (some (s!"HttpFetch: rate limit exceeded ({limit} calls/min) for automation '{automationId}'; " ++
      "reduce HttpFetch frequency or raise rate_limit_per_minute in the node config"), call.2)

structure WebUrl where
  scheme : String
  href : String

structure Web where
  toUppercase : String → String
  parse : String → Except String WebUrl
  runtime : Bool
  send : WebUrl → String → List (String × String) → Option String → Except String (Nat × String)

def renderString (s : String) (state : NodeState) : String :=
  -- There always is one (`Templates.renderTemplate_eq`).
  String.ofList ((Templates.renderTemplate s.toList state).getD [])

def fetchHeaders (node : NodeDef) : List (String × String) :=
  match node.config.get "headers" with
  | some (.obj members) => members.filterMap fun m => m.2.asStr.map fun s => (m.1, s)
  | _ => []

def fetchPage (web : Web) (node : NodeDef) (state : NodeState) : NodeOutcome :=
  match (node.config.get "url").bind Json.asStr with
  | none | some "" => .error "HttpFetch: missing required config key 'url'"
  | some urlRaw =>
    let url := renderString urlRaw state
    let method := web.toUppercase (((node.config.get "method").bind Json.asStr).getD "GET")
    let body := ((node.config.get "body").bind Json.asStr).map (renderString · state)
    if method ∉ ["GET", "POST", "PUT", "DELETE"] then
      .error s!"HttpFetch: unsupported method '{method}'; allowed: GET, POST, PUT, DELETE"
    else
      match web.parse url with
      | .error e => .error s!"HttpFetch: invalid url '{url}': {e}"
      | .ok parsed =>
        if parsed.scheme ≠ "http" ∧ parsed.scheme ≠ "https" then
          .error s!"HttpFetch: url scheme '{parsed.scheme}' not allowed; only http and https are permitted"
        else if !web.runtime then
          .error "HttpFetch: no tokio runtime in scope (executor must run under spawn_blocking)"
        else
          match web.send parsed method (fetchHeaders node) body with
          | .ok (status, body) => .output (.obj [("body", .str body), ("status", .num (toString status))])
          | .error msg => .error msg

def executeHttpFetch (web : Web) (limiter : HttpFetchRateLimiter) (node : NodeDef) (state : NodeState) (now : Nat) :
    NodeOutcome × HttpFetchRateLimiter :=
  match checkRate limiter node state now with
  | (some msg, limiter) => (.error msg, limiter)
  | (none, limiter) => (fetchPage web node state, limiter)

structure FetchCall where
  node : NodeDef
  state : NodeState
  now : Nat

abbrev FetchTrace := List (FetchCall × Bool)

def fetches (web : Web) : HttpFetchRateLimiter → List FetchCall → FetchTrace
  | _, [] => []
  | limiter, c :: rest => (c, (checkRate limiter c.node c.state c.now).1.isNone) ::
      fetches web (executeHttpFetch web limiter c.node c.state c.now).2 rest

def ofNode (automation node : String) (limit : Nat) (c : FetchCall) : Bool :=
  automationIdOf c.state == automation && c.node.id == node && rateLimitPerMinute c.node == some limit

def ofDefault (automation : String) (c : FetchCall) : Bool :=
  automationIdOf c.state == automation && rateLimitPerMinute c.node == none

def admittedAt (kind : FetchCall → Bool) (trace : FetchTrace) : List Nat :=
  (trace.filter fun e => e.2 && kind e.1).map fun e => e.1.now

/-- **Every window keeps its limit**, and no call is refused below it. -/
structure Limited (callsPerMinute : Nat) (trace : FetchTrace) : Prop where
  node : ∀ automation id limit, limit ≠ 0 → Spread oneMinute limit (admittedAt (ofNode automation id limit) trace)
  automation : ∀ automation, Spread oneMinute callsPerMinute (admittedAt (ofDefault automation) trace)
  refused : ∀ pre c post, trace = pre ++ (c, false) :: post → match rateLimitPerMinute c.node with
    | some limit => limit ≠ 0 ∧
        limit ≤ (recent oneMinute c.now (admittedAt (ofNode (automationIdOf c.state) c.node.id limit) pre)).length
    | none => callsPerMinute ≤ (recent oneMinute c.now (admittedAt (ofDefault (automationIdOf c.state)) pre)).length

def Paced (calls : List FetchCall) : Prop :=
  ∀ automation id limit, limit ≠ 0 → ∀ pre c post, calls = pre ++ c :: post → ofNode automation id limit c →
    (recent oneMinute c.now ((pre.filter (ofNode automation id limit)).map FetchCall.now)).length < limit

variable {web : Web} {limiter : HttpFetchRateLimiter} {node : NodeDef} {state : NodeState} {c : FetchCall} {now cap : Nat}
  {last limit : Nat} {past trace : FetchTrace} {calls : List FetchCall} {kind : FetchCall → Bool}
  {automation id : String}

theorem tryCall_eq : limiter.tryCall automation now =
    let call := admitAt oneMinute limiter.callsPerMinute (limiter.windows automation) now
    (call.1, { limiter with windows := Function.update limiter.windows automation call.2 }) := by
  by_cases hcap : limiter.callsPerMinute ≤ (recent oneMinute now (limiter.windows automation)).length
  · simp only [admitAt, if_pos hcap]
    exact if_pos hcap
  · simp only [admitAt, if_neg hcap]
    exact if_neg hcap

theorem new_tryCall (h : limit ≠ 0) : ((HttpFetchRateLimiter.new limit).tryCall automation now).1 = true := by
  have hcap : ¬ limit ≤ 0 := by omega
  simp [HttpFetchRateLimiter.tryCall, HttpFetchRateLimiter.new, hcap]

theorem checkRate_given (h : rateLimitPerMinute node = some limit) :
    checkRate limiter node state now = (none, limiter) := by
  unfold checkRate
  rw [h]
  simp only [Option.map_some, Option.isSome_some, if_true]
  by_cases hzero : limit % 2 ^ 32 = 0
  · rw [hzero]
    rfl
  · split
    · rfl
    · rename_i n hn
      have hlimit : n ≠ 0 := by
        rintro rfl
        split at hn <;> simp_all
      simp [new_tryCall hlimit]

theorem checkRate_default (h : rateLimitPerMinute node = none) :
    (checkRate limiter node state now).1.isNone = (limiter.tryCall (automationIdOf state) now).1 ∧
    (checkRate limiter node state now).2 = (limiter.tryCall (automationIdOf state) now).2 := by
  unfold checkRate
  rw [h]
  simp only [Option.map_none, Option.isSome_none, Bool.false_eq_true, if_false]
  cases hcall : (limiter.tryCall (automationIdOf state) now).1 <;> simp

theorem executeHttpFetch_snd :
    (executeHttpFetch web limiter node state now).2 = (checkRate limiter node state now).2 := by
  unfold executeHttpFetch
  split <;> simp_all

theorem admittedAt_snoc {b : Bool} :
    admittedAt kind (past ++ [(c, b)]) = admittedAt kind past ++ if b && kind c then [c.now] else [] := by
  unfold admittedAt
  rw [List.filter_append, List.map_append]
  cases h : b && kind c <;> simp [h]

/-! ## Invariant -/

structure LimiterInv (cap last : Nat) (limiter : HttpFetchRateLimiter) (past : FetchTrace) : Prop where
  callsPerMinute : limiter.callsPerMinute = cap
  before : ∀ e ∈ past, e.1.now ≤ last
  tracks : ∀ a, Tracks oneMinute last (admittedAt (ofDefault a) past) (limiter.windows a)
  spread : ∀ a, Spread oneMinute cap (admittedAt (ofDefault a) past)
  refused : ∀ pre c post, past = pre ++ (c, false) :: post → rateLimitPerMinute c.node = none ∧
    cap ≤ (recent oneMinute c.now (admittedAt (ofDefault (automationIdOf c.state)) pre)).length

theorem limiterInv_new : LimiterInv cap 0 (.new cap) [] where
  callsPerMinute := rfl
  before := by simp
  tracks := fun _ => Tracks.nil
  spread := fun _ => Spread.nil
  refused := by simp

theorem LimiterInv.admitted_le (h : LimiterInv cap last limiter past) (hle : last ≤ now) :
    ∀ t ∈ admittedAt kind past, t ≤ now := by
  intro t ht
  obtain ⟨e, he, rfl⟩ := List.mem_map.1 ht
  exact (h.before e (List.mem_of_mem_filter he)).trans hle

theorem LimiterInv.refused_snoc (h : LimiterInv cap last limiter past) {b : Bool}
    (hb : b = false → rateLimitPerMinute c.node = none ∧
      cap ≤ (recent oneMinute c.now (admittedAt (ofDefault (automationIdOf c.state)) past)).length) :
    ∀ pre d post, past ++ [(c, b)] = pre ++ (d, false) :: post → rateLimitPerMinute d.node = none ∧
      cap ≤ (recent oneMinute d.now (admittedAt (ofDefault (automationIdOf d.state)) pre)).length := by
  intro pre d post hsplit
  rcases List.eq_nil_or_concat post with rfl | ⟨post, e, rfl⟩
  · obtain ⟨rfl, heq⟩ := List.append_inj' hsplit rfl
    cases (List.cons.inj heq).1
    exact hb rfl
  · rw [List.concat_eq_append, ← List.cons_append, ← List.append_assoc] at hsplit
    exact h.refused pre d post (List.append_inj' hsplit rfl).1

theorem LimiterInv.step (h : LimiterInv cap last limiter past) (hle : last ≤ c.now) :
    LimiterInv cap c.now (executeHttpFetch web limiter c.node c.state c.now).2
      (past ++ [(c, (checkRate limiter c.node c.state c.now).1.isNone)]) := by
  have hbefore : ∀ b, ∀ e ∈ past ++ [(c, b)], e.1.now ≤ c.now := by
    intro b e he
    rcases List.mem_append.1 he with he | he
    · exact (h.before e he).trans hle
    · rw [List.mem_singleton.1 he]
  rw [executeHttpFetch_snd]
  cases hlimit : rateLimitPerMinute c.node with
  | some n =>
    have hkind : ∀ a, ofDefault a c = false := fun a => by simp [ofDefault, hlimit]
    have hlog : ∀ a, admittedAt (ofDefault a) (past ++ [(c, true)]) = admittedAt (ofDefault a) past := fun a => by
      simp [admittedAt_snoc, hkind]
    rw [checkRate_given hlimit]
    exact {
      callsPerMinute := h.callsPerMinute
      before := hbefore _
      tracks := fun a => by
        show Tracks _ _ (admittedAt _ (past ++ [(c, true)])) _
        rw [hlog]
        exact (h.tracks a).later hle
      spread := fun a => by
        show Spread _ _ (admittedAt _ (past ++ [(c, true)]))
        rw [hlog]
        exact h.spread a
      refused := h.refused_snoc nofun }
  | none =>
    obtain ⟨hpass, hnext⟩ := @checkRate_default limiter c.node c.state c.now hlimit
    rw [hpass, hnext, tryCall_eq, h.callsPerMinute]
    have hadmitted := @Tracks.admit_iff oneMinute cap _ _ _ _ (h.tracks (automationIdOf c.state)) hle
    have htracks := @Tracks.admitAt oneMinute cap _ _ _ _ (h.tracks (automationIdOf c.state)) hle
    generalize admitAt oneMinute cap (limiter.windows (automationIdOf c.state)) c.now = call at hadmitted htracks ⊢
    have hsame : admittedAt (ofDefault (automationIdOf c.state)) (past ++ [(c, call.1)]) =
        if call.1 then admittedAt (ofDefault (automationIdOf c.state)) past ++ [c.now]
        else admittedAt (ofDefault (automationIdOf c.state)) past := by
      have hkind : ofDefault (automationIdOf c.state) c = true := by simp [ofDefault, hlimit]
      rw [admittedAt_snoc, hkind]
      cases call.1 <;> simp
    have hother : ∀ a, a ≠ automationIdOf c.state →
        admittedAt (ofDefault a) (past ++ [(c, call.1)]) = admittedAt (ofDefault a) past := fun a ha => by
      have hkind : ofDefault a c = false := by simp [ofDefault, Ne.symm ha]
      simp [admittedAt_snoc, hkind]
    exact {
      callsPerMinute := rfl
      before := hbefore _
      tracks := fun a => by
        by_cases ha : a = automationIdOf c.state
        · subst ha
          rw [hsame]
          simpa using htracks
        · rw [hother a ha]
          simpa [ha] using (h.tracks a).later hle
      spread := fun a => by
        by_cases ha : a = automationIdOf c.state
        · subst ha
          rw [hsame]
          split
          · next hcall => exact (h.spread _).snoc (h.admitted_le hle) (hadmitted.1 hcall)
          · exact h.spread _
        · rw [hother a ha]
          exact h.spread a
      refused := h.refused_snoc fun hb => ⟨hlimit, Nat.not_lt.1 fun hlt => by simp [hadmitted.2 hlt] at hb⟩ }

theorem LimiterInv.fetches : ∀ {calls : List FetchCall} {limiter : HttpFetchRateLimiter} {last : Nat} {past : FetchTrace},
    LimiterInv cap last limiter past → calls.Pairwise (·.now ≤ ·.now) → (∀ c ∈ calls, last ≤ c.now) →
    ∃ last limiter', LimiterInv cap last limiter' (past ++ fetches web limiter calls)
  | [], limiter, last, past, h, _, _ => ⟨last, limiter, by simpa [Execlaw.fetches] using h⟩
  | c :: calls, limiter, last, past, h, hsorted, hlast => by
    obtain ⟨hfirst, hsorted⟩ := List.pairwise_cons.1 hsorted
    have hstep := @LimiterInv.step web limiter c cap last past h (hlast c List.mem_cons_self)
    obtain ⟨last', limiter', hrest⟩ := LimiterInv.fetches hstep hsorted hfirst
    exact ⟨last', limiter', by simpa [Execlaw.fetches] using hrest⟩

theorem map_fst_fetches : ∀ {calls : List FetchCall} {limiter : HttpFetchRateLimiter},
    (fetches web limiter calls).map Prod.fst = calls
  | [], _ => rfl
  | c :: _, _ => congrArg (c :: ·) map_fst_fetches

theorem LimiterInv.admittedAt_ofNode (h : LimiterInv cap last limiter trace) :
    admittedAt (ofNode automation id limit) trace =
      ((trace.map Prod.fst).filter (ofNode automation id limit)).map FetchCall.now := by
  have hpass : ∀ e ∈ trace, (e.2 && ofNode automation id limit e.1) = ofNode automation id limit e.1 := by
    rintro ⟨c, b⟩ he
    cases b with
    | true => simp
    | false =>
      obtain ⟨pre, post, rfl⟩ := List.append_of_mem he
      have hnone := (h.refused pre c post rfl).1
      simp [ofNode, hnone]
  unfold admittedAt
  rw [List.filter_congr hpass, List.filter_map, List.map_map]
  rfl

theorem spread_filter_iff (hsorted : calls.Pairwise (·.now ≤ ·.now)) :
    Spread oneMinute limit ((calls.filter kind).map FetchCall.now) ↔
      ∀ pre c post, calls = pre ++ c :: post → kind c →
        (recent oneMinute c.now ((pre.filter kind).map FetchCall.now)).length < limit := by
  constructor
  · rintro h pre c post rfl hc
    have hlast : ∀ t ∈ (pre.filter kind).map FetchCall.now, t ≤ c.now := by
      intro t ht
      obtain ⟨d, hd, rfl⟩ := List.mem_map.1 ht
      exact (List.pairwise_append.1 hsorted).2.2 d (List.mem_of_mem_filter hd) c List.mem_cons_self
    rw [List.filter_append, List.filter_cons_of_pos hc, List.map_append, List.map_cons] at h
    exact h.recent_lt (by decide) hlast
  · intro h
    induction calls using List.reverseRecOn with
    | nil => exact Spread.nil
    | append_singleton calls c ih =>
      obtain ⟨hsorted, -, hbefore⟩ := List.pairwise_append.1 hsorted
      have ih := ih hsorted fun pre d post hsplit hd => h pre d (post ++ [c]) (by simp [hsplit]) hd
      rw [List.filter_append, List.map_append]
      cases hc : kind c with
      | false => simpa [hc] using ih
      | true =>
        have hlast : ∀ t ∈ (calls.filter kind).map FetchCall.now, t ≤ c.now := by
          intro t ht
          obtain ⟨d, hd, rfl⟩ := List.mem_map.1 ht
          exact hbefore d (List.mem_of_mem_filter hd) c (List.mem_singleton_self c)
        simpa [hc] using ih.snoc hlast (h calls c [] rfl hc)

/-- **The limits hold in every window** just when no node that gives a limit is called more often than it: the limit of
the host is kept, and that of a node is not looked at. -/
theorem fetches_limited_iff (web : Web) (cap : Nat) (calls : List FetchCall) (hclock : calls.Pairwise (·.now ≤ ·.now)) :
    Limited cap (fetches web (.new cap) calls) ↔ Paced calls := by
  obtain ⟨last, limiter, hinv⟩ := @LimiterInv.fetches web cap calls _ 0 [] limiterInv_new hclock fun _ _ => Nat.zero_le _
  rw [List.nil_append] at hinv
  have hnode : ∀ automation id limit, Spread oneMinute limit
      (admittedAt (ofNode automation id limit) (fetches web (.new cap) calls)) ↔ ∀ pre c post, calls = pre ++ c :: post →
        ofNode automation id limit c →
        (recent oneMinute c.now ((pre.filter (ofNode automation id limit)).map FetchCall.now)).length < limit := by
    intro automation id limit
    rw [hinv.admittedAt_ofNode, map_fst_fetches]
    exact spread_filter_iff hclock
  constructor
  · exact fun h automation id limit hlimit => (hnode automation id limit).1 (h.node automation id limit hlimit)
  · intro h
    refine ⟨fun automation id limit hlimit => (hnode automation id limit).2 (h automation id limit hlimit), hinv.spread,
      fun pre c post hsplit => ?_⟩
    obtain ⟨hnone, hcap⟩ := hinv.refused pre c post hsplit
    rw [hnone]
    exact hcap

def sampleWeb : Web := ⟨fun s => s, fun s => .ok ⟨"http", s⟩, true, fun _ _ _ _ => .ok (200, "")⟩

def plainCall (now : Nat) : FetchCall := ⟨⟨"fetch", .httpFetch, .null⟩, [], now⟩

def pairCall (now : Nat) : FetchCall := ⟨⟨"pair", .httpFetch, .obj [("rate_limit_per_minute", .num "2")]⟩, [], now⟩

def minuteCalls : List FetchCall := [plainCall 0, pairCall 0, plainCall 1, pairCall 1, plainCall oneMinute]

/-- Of three calls under the limit of the host the second is refused; a node that allows two is called twice beside. -/
theorem fetches_limited_iff_minute : Limited 1 (fetches sampleWeb (.new 1) minuteCalls) ∧
    (fetches sampleWeb (.new 1) minuteCalls).map Prod.snd = [true, true, false, true, true] := by
  refine ⟨(fetches_limited_iff sampleWeb 1 minuteCalls (by decide)).2
    fun automation id limit _ pre c post hsplit hc => ?_, by decide⟩
  obtain ⟨-, hlimit⟩ := Bool.and_eq_true_iff.1 hc
  have hplain : ∀ now, ofNode automation id limit (plainCall now) = false := fun now => Bool.and_false _
  have htwo : limit = 2 := by
    have hmem : c ∈ minuteCalls := hsplit ▸ List.mem_append_right pre List.mem_cons_self
    simp only [minuteCalls, List.mem_cons, List.not_mem_nil, or_false] at hmem
    obtain rfl | rfl | rfl | rfl | rfl := hmem
    · cases hlimit
    · exact (Option.some.inj (eq_of_beq hlimit)).symm
    · cases hlimit
    · exact (Option.some.inj (eq_of_beq hlimit)).symm
    · cases hlimit
  have hcount : (minuteCalls.filter (ofNode automation id limit)).length ≤ 2 := by
    rw [show minuteCalls.filter (ofNode automation id limit) =
      [pairCall 0, pairCall 1].filter (ofNode automation id limit) by simp [minuteCalls, hplain, List.filter_cons]]
    exact List.length_filter_le _ _
  rw [hsplit, List.filter_append, List.filter_cons_of_pos hc, List.length_append, List.length_cons] at hcount
  have hrecent := List.length_filter_le (fun t => c.now - t < oneMinute)
    ((pre.filter (ofNode automation id limit)).map FetchCall.now)
  rw [List.length_map] at hrecent
  exact hrecent.trans_lt (by omega)

/-- Two calls at once of a node that allows one in a minute both pass. -/
theorem limited_node_called_twice : ¬ Limited 60
    (fetches ⟨fun s => s, fun s => .ok ⟨"http", s⟩, true, fun _ _ _ _ => .ok (200, "")⟩ (.new 60)
      [⟨⟨"fetch", .httpFetch, .obj [("rate_limit_per_minute", .num "1")]⟩, [("__automation_id__", .str "auto")], 0⟩,
        ⟨⟨"fetch", .httpFetch, .obj [("rate_limit_per_minute", .num "1")]⟩, [("__automation_id__", .str "auto")], 0⟩]) := by
  intro h
  have hspread := h.node "auto" "fetch" 1 (by decide) 0
  revert hspread
  decide

end Execlaw
