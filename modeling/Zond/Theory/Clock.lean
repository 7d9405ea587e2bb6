import Zond.Core.Ntp

/-!
# Following the Server

`Time` adds the drift to the local clock where it should take it off, so it is wrong by
twice the difference of the clocks, and so is the age by which it decides to ask again.

## Main definitions

* `NTP.FollowsServer`: What `Time` has to do after a reading.

## Theorems

* `NTP.holds_run`: The node holds the drift of the last reading, whatever came before.
* `NTP.followsServer_iff`: `Time` follows the server exactly if the clocks agreed at it.
-/

namespace Zond

variable {n : NTP} {query : Query ε} {t : Reading}

inductive ClockCall (ε : Type) where
  | update (query : Query ε)
  | time (now : Int64) (query : Query ε) (later : Int64)

namespace NTP

variable {ε : Type} (cfg : NTPConfig)

def reading (n : NTP) : ClockCall ε → Option Reading
  | .update query => (ask cfg query).toOption
  | .time now query _ => if n.Stale cfg now then (ask cfg query).toOption else none

def step (n : NTP) : ClockCall ε → NTP
  | .update query => (n.updateTime cfg query).1
  | .time now query later => (n.time cfg now query later).1

def run (calls : List (ClockCall ε)) (n : NTP) : NTP := calls.foldl (step cfg) n

/-- The last reading that a history has taken from a state on, if there was one. -/
def lastReading : List (ClockCall ε) → NTP → Option Reading
  | [], _ => none
  | call :: calls, n => (lastReading calls (n.step cfg call)).or (n.reading cfg call)

def Holds (n : NTP) (t : Reading) : Prop :=
  n = { drift := t.localTime - t.server, lastUpdate := t.server.toUInt64 }

variable {cfg}

theorem holds_updateTime (h : ask cfg query = .ok t) : (n.updateTime cfg query).1.Holds t := by
  simp [updateTime, h, Holds]

theorem updateTime_of_error (h : (ask cfg query).toOption = none) :
    (n.updateTime cfg query).1 = n := by
  unfold updateTime
  cases hask : ask cfg query with
  | ok t => simp [hask, Except.toOption] at h
  | error e => rfl

theorem step_reading (n : NTP) (call : ClockCall ε) :
    (∀ t, n.reading cfg call = some t → (n.step cfg call).Holds t) ∧
      (n.reading cfg call = none → n.step cfg call = n) := by
  have hok : ∀ (query : Query ε) t, (ask cfg query).toOption = some t → ask cfg query = .ok t := by
    intro query t h
    cases hask : ask cfg query with
    | ok t' => simpa [hask, Except.toOption] using h
    | error e => simp [hask, Except.toOption] at h
  cases call with
  | update query => exact ⟨fun t h => holds_updateTime (hok query t h), updateTime_of_error⟩
  | time now query later =>
    simp only [reading, step, time]
    split
    · exact ⟨fun t h => holds_updateTime (hok query t h), updateTime_of_error⟩
    · exact ⟨fun t h => by simp at h, fun _ => rfl⟩

theorem holds_run (calls : List (ClockCall ε)) (n : NTP) :
    (∀ t, lastReading cfg calls n = some t → (run cfg calls n).Holds t) ∧
      (lastReading cfg calls n = none → run cfg calls n = n) := by
  induction calls generalizing n with
  | nil => exact ⟨fun t h => by simp [lastReading] at h, fun _ => rfl⟩
  | cons call calls ih =>
    have hrun : run cfg (call :: calls) n = run cfg calls (n.step cfg call) := rfl
    rw [hrun, lastReading]
    rcases hlast : lastReading cfg calls (n.step cfg call) with _ | t
    · -- Nothing was read later, so the first call decides.
      rw [Option.none_or, (ih _).2 hlast]
      exact step_reading n call
    · rw [Option.some_or]
      exact ⟨fun t' h => Option.some_inj.1 h ▸ (ih _).1 t hlast, fun h => by simp at h⟩

variable (cfg)

/-- What `Time` has to do in a state that goes back to a reading: as long as no update
    succeeds, a call at local time `L + e` returns `S + e`, and it asks the servers if
    `e` is more than the refresh interval. -/
def FollowsServer (ε : Type) (n : NTP) (t : Reading) : Prop :=
  ∀ (e e' : Int64) (query : Query ε),
    (n.reading cfg (.time (t.localTime + e) query (t.localTime + e')) = none →
      (n.time cfg (t.localTime + e) query (t.localTime + e')).2 = (t.server + e').toUInt64) ∧
    ((cfg.refresh.toNat : Int) < e.toInt → n.Stale cfg (t.localTime + e))

theorem add_self_eq_zero_iff (x : Int64) : x + x = 0 ↔ x = 0 ∨ x = Int64.minValue := by
  have hx := x.toBitVec.isLt
  have hzero : (0 : Int64).toBitVec.toNat = 0 := rfl
  have hmin : Int64.minValue.toBitVec.toNat = 2 ^ 63 := rfl
  simp only [← Int64.toBitVec_inj, Int64.toBitVec_add, BitVec.toNat_eq, BitVec.toNat_add, hzero,
    hmin]
  omega

theorem lt_toUInt64 {e : Int64} {r : UInt64} (h : (r.toNat : Int) < e.toInt) : r < e.toUInt64 := by
  have hcond := BitVec.toInt_eq_toNat_cond e.toBitVec
  have hlt := e.toBitVec.isLt
  change (r.toNat : Int) < e.toBitVec.toInt at h
  rw [UInt64.lt_iff_toNat_lt]
  change r.toNat < e.toBitVec.toNat
  split at hcond <;> omega

theorem toUInt64_inj {a b : Int64} (h : a.toUInt64 = b.toUInt64) : a = b := by
  simpa using congrArg UInt64.toInt64 h

theorem time_of_no_reading {now later : Int64} (h : n.reading cfg (.time now query later) = none) :
    (n.time cfg now query later).2 = (later + n.drift).toUInt64 := by
  have hsame : (n.time cfg now query later).1 = n := (step_reading n _).2 h
  have hvalue : (n.time cfg now query later).2
      = (later + (n.time cfg now query later).1.drift).toUInt64 := rfl
  rw [hvalue, hsame]

theorem followsServer_of_holds (hn : n.Holds t)
    (htwice : (t.localTime - t.server) + (t.localTime - t.server) = 0) :
    FollowsServer cfg ε n t := by
  subst hn
  refine fun e e' query => ⟨fun hnone => ?_, fun he => ?_⟩
  · rw [time_of_no_reading cfg hnone]
    congr 1
    grind
  · have hage : (t.localTime + e + (t.localTime - t.server)).toUInt64 - t.server.toUInt64
        = e.toUInt64 := by
      rw [← Int64.toUInt64_sub]
      congr 1
      grind
    rw [Stale, hage]
    exact lt_toUInt64 he

theorem twice_of_followsServer (hn : n.Holds t) (h : FollowsServer cfg ε n t) :
    (t.localTime - t.server) + (t.localTime - t.server) = 0 := by
  subst hn
  -- A local time at which the age comes out as zero, so that nothing is asked.
  let e := (t.server - t.localTime) + (t.server - t.localTime)
  have hage : (t.localTime + e + (t.localTime - t.server)).toUInt64 - t.server.toUInt64 = 0 := by
    have hzero : t.localTime + e + (t.localTime - t.server) - t.server = 0 := by grind
    rw [← Int64.toUInt64_sub, hzero]
    rfl
  have hfresh : ¬ Stale cfg { drift := t.localTime - t.server, lastUpdate := t.server.toUInt64 }
      (t.localTime + e) := by
    rw [Stale, hage]
    exact UInt64.not_lt_zero
  have hnone : reading cfg { drift := t.localTime - t.server, lastUpdate := t.server.toUInt64 }
      (.time (t.localTime + e) (fun _ _ => .ok t : Query ε) (t.localTime + e)) = none :=
    if_neg hfresh
  have hvalue := toUInt64_inj ((time_of_no_reading cfg hnone).symm.trans ((h e e _).1 hnone))
  grind

/-- After any history that has taken a reading, `Time` follows the server exactly if the
    local clock agreed with it at the last one, up to a difference of `2 ^ 63`. -/
theorem followsServer_iff (cfg : NTPConfig) (calls : List (ClockCall ε)) (t : Reading)
    (h : lastReading cfg calls NTP.new = some t) : FollowsServer cfg ε (run cfg calls NTP.new) t ↔
      t.localTime = t.server ∨ t.localTime - t.server = Int64.minValue := by
  have hholds := (holds_run calls NTP.new).1 t h
  have htwice : (t.localTime - t.server) + (t.localTime - t.server) = 0 ↔
      t.localTime = t.server ∨ t.localTime - t.server = Int64.minValue := by
    rw [add_self_eq_zero_iff]
    refine or_congr_left ⟨fun hzero => by grind, fun heq => by grind⟩
  rw [← htwice]
  exact ⟨twice_of_followsServer cfg hholds, followsServer_of_holds cfg hholds⟩

def toyClock : NTPConfig := { retries := 0, servers := ["pool".toList], refresh := 10 }

def toyUpdate (localTime : Int64) : ClockCall Unit :=
  .update fun _ _ => .ok { server := 100, localTime := localTime }

/-- A clock set right between two readings, the second one asked for by `Time`, and a
    call that finds no server afterwards. -/
def toyCalls : List (ClockCall Unit) :=
  [toyUpdate 105, .time 300 (fun _ _ => .ok { server := 300, localTime := 300 }) 300,
    .time 320 (fun _ _ => .error ()) 321]

theorem followsServer_toyUpdate :
    FollowsServer toyClock Unit (run toyClock toyCalls NTP.new) ⟨300, 300⟩ :=
  (followsServer_iff toyClock toyCalls ⟨300, 300⟩ (by decide)).2 (.inl rfl)

/-- A local clock five seconds ahead: at the very time of the reading, `Time` is ten
    seconds past the server. -/
theorem time_ahead_of_server : lastReading toyClock [toyUpdate 105] NTP.new = some ⟨100, 105⟩ ∧
    ((run toyClock [toyUpdate 105] NTP.new).time toyClock 105
      (fun _ _ => .error () : Query Unit) 105).2 = 110 := by
  decide

end NTP

end Zond
