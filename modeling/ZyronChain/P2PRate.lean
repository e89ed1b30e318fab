import ZyronChain.Codec
import ZyronChain.Lib.ReplayGuard
import ZyronChain.Lib.Tally

/-!
# Rate limits for peers

Each peer has a window with a count of its requests.  The number of windows is bounded; a new peer
that finds no room shares one overflow window.  Expired windows are swept when there is no room and
the first of them may have expired.

Source: `l1/src/p2p-rate.ts`.

## Main definitions

* `P2PPeerRateLimiter`, `consume` : the class of the source.
* `P2PPeerRateLimiter.Run` : the calls on a clock that does not go back, with the grants.

## Main results

* `P2PPeerRateLimiter.Sound.consume` : what a call keeps.
* `P2PPeerRateLimiter.peer_rate_limits` : the bounds of every run.
-/

namespace ZyronChain

open Checks

/-- The window of a peer. -/
structure RateWindow where
  startedAtMs : Int
  count : Int
  deriving DecidableEq

/-- The fields of a limiter that do not change. -/
structure RateLimits where
  requestsPerWindow : Int
  windowMs : Int
  maxTrackedPeers : Int
  overflowRequestsPerWindow : Int
  deriving DecidableEq

structure P2PPeerRateLimiter where
  limits : RateLimits
  peers : JsMap String RateWindow
  nextSweepAtMs : WithTop Int
  overflowStartedAtMs : Option Int
  overflowCount : Int
  deriving DecidableEq

namespace P2PPeerRateLimiter

def create (limits : RateLimits) : Except String P2PPeerRateLimiter := do
  throwIf (¬ IsSafeInteger limits.requestsPerWindow ∨ limits.requestsPerWindow < 1 ∨
    limits.requestsPerWindow > 100000 ∨ ¬ IsSafeInteger limits.windowMs ∨ limits.windowMs < 1000 ∨
    limits.windowMs > 60 * 60 * 1000 ∨ ¬ IsSafeInteger limits.maxTrackedPeers ∨
    limits.maxTrackedPeers < 1 ∨ limits.maxTrackedPeers > 100000 ∨
    ¬ IsSafeInteger limits.overflowRequestsPerWindow ∨ limits.overflowRequestsPerWindow < 1 ∨
    limits.overflowRequestsPerWindow > 100000) "Invalid P2P peer rate limits"
  .ok ⟨limits, .empty, ⊤, none, 0⟩

def expiresAtMs (l : P2PPeerRateLimiter) (entry : RateWindow) : Int :=
  entry.startedAtMs + l.limits.windowMs

/-- The deletion of the window of a peer that has expired. -/
def refresh (l : P2PPeerRateLimiter) (peerId : String) (nowMs : Int) : P2PPeerRateLimiter :=
  match l.peers.get peerId with
  | some entry =>
    if nowMs - entry.startedAtMs ≥ l.limits.windowMs then
      { l with peers := l.peers.delete peerId }
    else l
  | none => l

/-- The loop of `sweep` deletes the expired entries and takes the least end of the others. -/
def sweep (l : P2PPeerRateLimiter) (nowMs : Int) : P2PPeerRateLimiter :=
  let kept := l.peers.entries.filter fun e => ¬ nowMs ≥ l.expiresAtMs e.2
  { l with
    peers := ⟨kept, l.peers.nodup.sublist (List.filter_sublist.map _)⟩
    nextSweepAtMs := kept.foldr (fun e next => min (l.expiresAtMs e.2) next) ⊤ }

def consumeOverflow (l : P2PPeerRateLimiter) (nowMs : Int) : Bool × P2PPeerRateLimiter :=
  let fresh := match l.overflowStartedAtMs with
    | none => true
    | some startedAtMs => decide (nowMs - startedAtMs ≥ l.limits.windowMs)
  let count := (if fresh then 0 else l.overflowCount) + 1
  (decide (count ≤ l.limits.overflowRequestsPerWindow),
    { l with
      overflowStartedAtMs := if fresh then some nowMs else l.overflowStartedAtMs
      overflowCount := count })

/-- The end of `consume`: a request is counted in the window of its peer. -/
def count (l : P2PPeerRateLimiter) (peerId : String) (entry : RateWindow) :
    Bool × P2PPeerRateLimiter :=
  (decide (entry.count + 1 ≤ l.limits.requestsPerWindow),
    { l with peers := l.peers.set peerId { entry with count := entry.count + 1 } })

/-- The number of tracked peers reaches its bound. -/
def Full (l : P2PPeerRateLimiter) : Prop := (l.peers.entries.length : Int) ≥ l.limits.maxTrackedPeers

instance (l : P2PPeerRateLimiter) : Decidable l.Full := inferInstanceAs (Decidable (_ ≥ _))

/-- A peer without a window: it gets one where there is room. -/
def consumeNew (l : P2PPeerRateLimiter) (peerId : String) (nowMs : Int) : Bool × P2PPeerRateLimiter :=
  let l := if l.Full ∧ (nowMs : WithTop Int) ≥ l.nextSweepAtMs then l.sweep nowMs else l
  if l.Full then l.consumeOverflow nowMs
  else
    let l := { l with nextSweepAtMs := min l.nextSweepAtMs (nowMs + l.limits.windowMs : Int) }
    l.count peerId ⟨nowMs, 0⟩

def consume (l : P2PPeerRateLimiter) (peerId : String) (nowMs : Int) :
    Except String (Bool × P2PPeerRateLimiter) := do
  throwIf ((utf16 peerId).length < 1 ∨ (utf16 peerId).length > 256 ∨ ¬ IsSafeInteger nowMs ∨
    nowMs < 0) "Invalid P2P peer rate-limit identity"
  let l := l.refresh peerId nowMs
  .ok (match l.peers.get peerId with
    | some entry => l.count peerId entry
    | none => l.consumeNew peerId nowMs)

/-- The window in which a granted request was counted; a request in the overflow window has none. -/
def granted (result : Bool × P2PPeerRateLimiter) (peerId : String) : Option (String × Int) :=
  if result.1 = true then (result.2.peers.get peerId).map fun entry => (peerId, entry.startedAtMs)
  else none

/-- The calls on a clock that does not go back: the state, the time of the last call and the windows
of the granted requests. -/
inductive Run (start : P2PPeerRateLimiter) :
    P2PPeerRateLimiter → Int → List (String × Int) → Prop
  | start (t : Int) : Run start start t []
  | consume {l : P2PPeerRateLimiter} {t nowMs : Int} {grants : List (String × Int)}
      {peerId : String} {result : Bool × P2PPeerRateLimiter} (h : Run start l t grants)
      (hclock : t ≤ nowMs) (hresult : l.consume peerId nowMs = .ok result) :
      Run start result.2 nowMs (grants ++ (granted result peerId).toList)

/-! ### What holds in every state -/

/-- The windows are as many as allowed, the next sweep is due no later than the first of them ends,
and the grants are those of the windows. -/
structure Sound (limits : RateLimits) (l : P2PPeerRateLimiter) (t : Int)
    (grants : List (String × Int)) : Prop where
  limits_eq : l.limits = limits
  size_le : (l.peers.entries.length : Int) ≤ limits.maxTrackedPeers
  next_le : ∀ e ∈ l.peers.entries, l.nextSweepAtMs ≤ (l.expiresAtMs e.2 : WithTop Int)
  count_le : ∀ peerId entry, l.peers.get peerId = some entry →
    (grants.count (peerId, entry.startedAtMs) : Int) ≤ entry.count
  /-- A grant belongs to a tracked window or to one that has ended. -/
  ended : ∀ g ∈ grants, (∃ entry, l.peers.get g.1 = some entry ∧ entry.startedAtMs = g.2) ∨
    g.2 + limits.windowMs ≤ t
  granted_le : ∀ g, (grants.count g : Int) ≤ limits.requestsPerWindow

variable {limits : RateLimits} {l l' : P2PPeerRateLimiter} {t nowMs : Int}
  {grants : List (String × Int)} {peerId : String} {entry : RateWindow}

theorem Sound.drop (h : Sound limits l t grants) (hclock : t ≤ nowMs)
    (hlimits : l'.limits = l.limits) (hsub : l'.peers.entries.Sublist l.peers.entries)
    (hnext : ∀ e ∈ l'.peers.entries, l'.nextSweepAtMs ≤ (l'.expiresAtMs e.2 : WithTop Int))
    (hkeep : ∀ e ∈ l.peers.entries, e ∈ l'.peers.entries ∨ l.expiresAtMs e.2 ≤ nowMs) :
    Sound limits l' nowMs grants := by
  have hlength := hsub.length_le
  refine ⟨hlimits.trans h.limits_eq, (Int.ofNat_le.mpr hlength).trans h.size_le, hnext,
    fun p e hget => ?_, fun g hg => ?_, h.granted_le⟩
  · exact h.count_le p e (JsMap.get_eq_some_iff.mpr (hsub.subset (JsMap.get_eq_some_iff.mp hget)))
  · rcases h.ended g hg with ⟨e, hget, hstart⟩ | hended
    · rcases hkeep _ (JsMap.get_eq_some_iff.mp hget) with hkept | hexpired
      · exact .inl ⟨e, JsMap.get_eq_some_iff.mpr hkept, hstart⟩
      · rw [expiresAtMs, hstart, h.limits_eq] at hexpired
        exact .inr hexpired
    · exact .inr (hended.trans hclock)

theorem Sound.refresh (h : Sound limits l t grants) (hclock : t ≤ nowMs) :
    Sound limits (l.refresh peerId nowMs) nowMs grants := by
  have hself := h.drop hclock rfl (List.Sublist.refl _) h.next_le fun e he => .inl he
  rw [P2PPeerRateLimiter.refresh]
  split
  · rename_i entry hget
    split
    · rename_i hexpired
      refine h.drop hclock rfl List.filter_sublist (fun e he => ?_) fun e he => ?_
      · exact h.next_le e (List.mem_of_mem_filter he)
      · by_cases hkey : e.1 = peerId
        · refine .inr ?_
          rw [← hkey, JsMap.get_eq_some_iff.mpr he, Option.some.injEq] at hget
          rw [expiresAtMs, hget]
          omega
        · exact .inl (List.mem_filter.mpr ⟨he, by simpa using hkey⟩)
    · exact hself
  · exact hself

private theorem foldr_min_le {es : List (String × RateWindow)} {e : String × RateWindow}
    (he : e ∈ es) :
    es.foldr (fun e next => min (l.expiresAtMs e.2 : WithTop Int) next) ⊤ ≤ l.expiresAtMs e.2 := by
  induction he with
  | head es => exact min_le_left _ _
  | tail e' _ ih => exact (min_le_right _ _).trans ih

/-- A sweep leaves exactly the windows that have not ended. -/
theorem Sound.sweep (h : Sound limits l t grants) (hclock : t ≤ nowMs) :
    Sound limits (l.sweep nowMs) nowMs grants ∧
      ∀ e ∈ (l.sweep nowMs).peers.entries, nowMs < l.expiresAtMs e.2 := by
  refine ⟨h.drop hclock rfl List.filter_sublist (fun e he => ?_) fun e he => ?_, fun e he => ?_⟩
  · exact foldr_min_le he
  · by_cases hexpired : nowMs ≥ l.expiresAtMs e.2
    · exact .inr hexpired
    · exact .inl (List.mem_filter.mpr ⟨he, by simpa using hexpired⟩)
  · simpa using (List.mem_filter.mp he).2

/-- A request that is counted in a window.  The grants of the peer are those of this window or of
windows that have ended. -/
theorem Sound.count (h : Sound limits l nowMs grants)
    (hsize : (l.peers.set peerId { entry with count := entry.count + 1 }).entries.length ≤
      limits.maxTrackedPeers)
    (hnext : l.nextSweepAtMs ≤ (l.expiresAtMs entry : WithTop Int))
    (hcount : (grants.count (peerId, entry.startedAtMs) : Int) ≤ entry.count)
    (hother : ∀ g ∈ grants, g.1 = peerId →
      g.2 = entry.startedAtMs ∨ g.2 + limits.windowMs ≤ nowMs) :
    Sound limits (l.count peerId entry).2 nowMs
      (grants ++ (granted (l.count peerId entry) peerId).toList) := by
  have hset (p : String) : (l.count peerId entry).2.peers.get p =
      if peerId = p then some { entry with count := entry.count + 1 } else l.peers.get p :=
    JsMap.get_set _ _ _ _
  have hgranted : granted (l.count peerId entry) peerId =
      if entry.count + 1 ≤ limits.requestsPerWindow then some (peerId, entry.startedAtMs)
      else none := by
    simp [granted, P2PPeerRateLimiter.count, h.limits_eq]
  have hnew (g : String × Int) :
      ((grants ++ (granted (l.count peerId entry) peerId).toList).count g : Int) =
        grants.count g + if g = (peerId, entry.startedAtMs) ∧
          entry.count + 1 ≤ limits.requestsPerWindow then 1 else 0 := by
    rw [hgranted, List.count_append, Nat.cast_add]
    by_cases hg : g = (peerId, entry.startedAtMs)
    · rw [hg]
      split <;> simp [*]
    · split <;> simp [hg, Ne.symm hg]
  refine ⟨h.limits_eq, hsize, fun e he => ?_, fun p e hget => ?_, fun g hg => ?_, fun g => ?_⟩
  · have hget := (hset e.1).symm.trans (JsMap.get_eq_some_iff.mpr he)
    split at hget
    · rw [Option.some.injEq] at hget
      rw [← hget]
      exact hnext
    · exact h.next_le e (JsMap.get_eq_some_iff.mp hget)
  · rw [hset] at hget
    rw [hnew]
    split at hget
    · rename_i hp
      subst hp
      cases hget
      split <;> dsimp only <;> omega
    · rename_i hp
      rw [if_neg fun heq => hp (congrArg Prod.fst heq.1).symm, add_zero]
      exact h.count_le p e hget
  · rcases List.mem_append.mp hg with hg | hg
    · rcases h.ended g hg with ⟨e, hget, hstart⟩ | hended
      · by_cases hp : peerId = g.1
        · refine (hother g hg hp.symm).imp_left fun heq => ⟨_, (hset g.1).trans (if_pos hp), ?_⟩
          exact heq.symm
        · exact .inl ⟨e, (hset g.1).trans ((if_neg hp).trans hget), hstart⟩
      · exact .inr hended
    · rw [hgranted, Option.mem_toList] at hg
      split at hg
      · cases hg
        exact .inl ⟨_, (hset peerId).trans (if_pos rfl), rfl⟩
      · cases hg
  · have := h.granted_le g
    rw [hnew]
    split
    · rename_i hg
      rw [hg.1]
      omega
    · omega

/-- A peer without a window: without room every window is still open. -/
theorem Sound.consumeNew (h : Sound limits l nowMs grants) (hwindow : 0 < limits.windowMs)
    (hnone : l.peers.get peerId = none) :
    Sound limits (l.consumeNew peerId nowMs).2 nowMs
        (grants ++ (granted (l.consumeNew peerId nowMs) peerId).toList) ∧
      ((l.consumeNew peerId nowMs).2.peers.get peerId = none →
        ∀ e ∈ (l.consumeNew peerId nowMs).2.peers.entries, nowMs < e.2.startedAtMs + limits.windowMs) := by
  -- the state after the sweep, if there is one
  obtain ⟨m, hm, hsound, hopen, habsent⟩ : ∃ m : P2PPeerRateLimiter,
      m = (if l.Full ∧ (nowMs : WithTop Int) ≥ l.nextSweepAtMs then l.sweep nowMs else l) ∧
      Sound limits m nowMs grants ∧
      (m.Full → ∀ e ∈ m.peers.entries, nowMs < e.2.startedAtMs + limits.windowMs) ∧
      m.peers.get peerId = none := by
    refine ⟨_, rfl, ?_⟩
    split
    · obtain ⟨hswept, hopen⟩ := h.sweep le_rfl
      refine ⟨hswept, fun _ e he => h.limits_eq ▸ hopen e he, ?_⟩
      rw [JsMap.get_eq_none_iff] at hnone ⊢
      exact fun hmem => hnone ((List.filter_sublist.map _).subset hmem)
    · rename_i hnot
      refine ⟨h, fun hfull e he => ?_, hnone⟩
      have hlt := lt_of_not_ge fun hge => hnot ⟨hfull, hge⟩
      have := WithTop.coe_lt_coe.mp (hlt.trans_le (h.next_le e he))
      rwa [expiresAtMs, h.limits_eq] at this
  rw [P2PPeerRateLimiter.consumeNew, ← hm]
  dsimp only
  split
  · rename_i hfull
    have hover : (m.consumeOverflow nowMs).2.peers = m.peers := rfl
    refine ⟨?_, fun _ e he => hopen hfull e he⟩
    rw [granted, hover, habsent, Option.map_none, ite_self, Option.toList_none, List.append_nil]
    exact ⟨hsound.limits_eq, hsound.size_le, hsound.next_le, hsound.count_le, hsound.ended,
      hsound.granted_le⟩
  · rename_i hroom
    have hold : ∀ g ∈ grants, g.1 = peerId → g.2 + limits.windowMs ≤ nowMs := by
      intro g hg hp
      rcases hsound.ended g hg with ⟨e, hget, -⟩ | hended
      · rw [hp, habsent] at hget
        cases hget
      · exact hended
    refine ⟨Sound.count ⟨hsound.limits_eq, hsound.size_le, fun e he => ?_, hsound.count_le,
      hsound.ended, hsound.granted_le⟩ ?_ (min_le_right _ _) ?_ fun g hg hp => .inr (hold g hg hp),
      fun hget => ?_⟩
    · exact (min_le_left _ _).trans (hsound.next_le e he)
    · rw [JsMap.entries_set habsent, List.length_append, List.length_singleton]
      rw [Full, hsound.limits_eq] at hroom
      omega
    · rw [List.count_eq_zero.mpr fun hmem => ?_]
      · rfl
      · have := hold _ hmem rfl
        dsimp only at this
        omega
    · cases (JsMap.get_set_self _ _ _).symm.trans hget

/-- Every call keeps the invariant, and a peer goes to the overflow window only when every window
is still open. -/
theorem Sound.consume {result : Bool × P2PPeerRateLimiter} (h : Sound limits l t grants)
    (hwindow : 0 < limits.windowMs) (hclock : t ≤ nowMs)
    (hresult : l.consume peerId nowMs = .ok result) :
    Sound limits result.2 nowMs (grants ++ (granted result peerId).toList) ∧
      (result.2.peers.get peerId = none →
        ∀ e ∈ result.2.peers.entries, nowMs < e.2.startedAtMs + limits.windowMs) := by
  obtain ⟨-, hresult⟩ := throwIf_bind_eq_ok.mp hresult
  cases hresult
  have hfresh : Sound limits (l.refresh peerId nowMs) nowMs grants := h.refresh hclock
  generalize l.refresh peerId nowMs = m at hfresh ⊢
  cases hget : m.peers.get peerId with
  | none => exact hfresh.consumeNew hwindow hget
  | some entry =>
    have hmem := JsMap.get_eq_some_iff.mp hget
    refine ⟨hfresh.count ?_ (hfresh.next_le _ hmem) (hfresh.count_le _ _ hget) fun g hg hp => ?_,
      fun hnone => ?_⟩
    · have hkeys : (m.peers.set peerId { entry with count := entry.count + 1 }).keys = m.peers.keys :=
        JsMap.keys_set hget
      have hlength := congrArg List.length hkeys
      rw [JsMap.keys, JsMap.keys, List.length_map, List.length_map] at hlength
      rw [hlength]
      exact hfresh.size_le
    · refine (hfresh.ended g hg).imp_left fun ⟨e, hget', hstart⟩ => ?_
      rw [hp, hget] at hget'
      cases hget'
      exact hstart.symm
    · cases (JsMap.get_set_self _ _ _).symm.trans hnone

/-- In every run on a clock that does not go back a peer is granted at most its limit in each of its
windows, the tracked peers are at most the maximum, and a call sends a peer to the overflow window
only when every tracked window is still open. -/
theorem peer_rate_limits {start : P2PPeerRateLimiter} (hcreate : create limits = .ok start)
    (hrun : Run start l t grants) :
    (∀ g, (grants.count g : Int) ≤ limits.requestsPerWindow) ∧
      (l.peers.entries.length : Int) ≤ limits.maxTrackedPeers ∧
      ∀ peerId nowMs result, t ≤ nowMs → l.consume peerId nowMs = .ok result →
        result.2.peers.get peerId = none →
          ∀ e ∈ result.2.peers.entries, nowMs < e.2.startedAtMs + limits.windowMs := by
  obtain ⟨hvalid, hcreate⟩ := throwIf_bind_eq_ok.mp hcreate
  simp only [not_or, not_lt] at hvalid
  cases hcreate
  have hwindow : 0 < limits.windowMs := by omega
  have hsound : Sound limits l t grants := by
    induction hrun with
    | start t =>
      refine ⟨rfl, ?_, nofun, nofun, nofun, fun g => ?_⟩
      · exact zero_le_one.trans hvalid.2.2.2.2.2.2.2.1
      · exact zero_le_one.trans hvalid.2.1
    | consume h hclock hresult ih => exact (ih.consume hwindow hclock hresult).1
  exact ⟨hsound.granted_le, hsound.size_le, fun peerId nowMs result hclock hresult =>
    (hsound.consume hwindow hclock hresult).2⟩

/-- A second peer finds the only window open. -/
theorem peer_rate_limits_sample : ∃ start l m : P2PPeerRateLimiter,
    create ⟨1, 1000, 1, 1⟩ = .ok start ∧ Run start l 0 [("a", 0)] ∧
      l.consume "b" 5 = .ok (true, m) ∧ m.peers.get "b" = none ∧
      ∀ e ∈ m.peers.entries, 5 < e.2.startedAtMs + 1000 := by
  let start : P2PPeerRateLimiter := ⟨⟨1, 1000, 1, 1⟩, .empty, ⊤, none, 0⟩
  let l : P2PPeerRateLimiter :=
    { start with peers := .set .empty "a" ⟨0, 1⟩, nextSweepAtMs := (1000 : Int) }
  let m : P2PPeerRateLimiter := { l with overflowStartedAtMs := some 5, overflowCount := 1 }
  have hcreate : create ⟨1, 1000, 1, 1⟩ = .ok start := by decide +kernel
  have hfirst : start.consume "a" 0 = .ok (true, l) := by decide +kernel
  have hsecond : l.consume "b" 5 = .ok (true, m) := by decide +kernel
  have hrun : Run start l 0 [("a", 0)] := (Run.start 0).consume le_rfl hfirst
  have hnone : m.peers.get "b" = none := by decide +kernel
  exact ⟨start, l, m, hcreate, hrun, hsecond, hnone,
    (peer_rate_limits hcreate hrun).2.2 "b" 5 _ (by decide) hsecond hnone⟩

end P2PPeerRateLimiter

end ZyronChain
