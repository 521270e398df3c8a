import CppLinuxLearn.Solcom.ConnServer

/-!
# The clients that a tick deletes

The readings of the clock are signed, and `hbt_timer_cb` keeps and compares their differences unsigned. A
clock that is set back behind the last read or write of a client makes the difference huge, so the
client is deleted unless the other of its times is recent.
-/

namespace CppLinuxLearn.Solcom

open Lib Steps

theorem toNat_sub_eq_emod (a b : BitVec 64) : ((a - b).toNat : Int) = (a.toInt - b.toInt) % 2 ^ 64 := by
  have ha := a.isLt
  have hb := b.isLt
  rw [BitVec.toNat_sub, BitVec.toInt_eq_toNat_cond, BitVec.toInt_eq_toNat_cond]
  split <;> split <;> omega

namespace SolConnClient

/-- Both times are too long ago, in signed arithmetic. -/
def Idle (c : SolConnClient) (nowTime : BitVec 64) : Prop :=
  MAX_IDLE_INTERVAL < nowTime.toInt - c.lastRead.toInt ∧ MAX_IDLE_INTERVAL < nowTime.toInt - c.lastWrite.toInt

/-- If the clock is behind one of the two times, the distance to one of them is small modulo `2 ^ 64`. -/
def NotSetBack (c : SolConnClient) (nowTime : BitVec 64) : Prop :=
  nowTime.toInt < max c.lastRead.toInt c.lastWrite.toInt →
    (nowTime.toInt - c.lastRead.toInt) % 2 ^ 64 ≤ MAX_IDLE_INTERVAL ∨
      (nowTime.toInt - c.lastWrite.toInt) % 2 ^ 64 ≤ MAX_IDLE_INTERVAL

instance (c : SolConnClient) (nowTime : BitVec 64) : Decidable (c.NotSetBack nowTime) :=
  inferInstanceAs (Decidable (_ → _))

/-- A client that is taken for idle is so, exactly if the clock was not set back behind its times. -/
theorem idle_of_expired_iff (c : SolConnClient) (nowTime : BitVec 64) :
    (MAX_IDLE_INTERVAL.toNat < (nowTime - c.lastRead).toNat ∧
        MAX_IDLE_INTERVAL.toNat < (nowTime - c.lastWrite).toNat → c.Idle nowTime) ↔ c.NotSetBack nowTime := by
  have hread := toNat_sub_eq_emod nowTime c.lastRead
  have hwrite := toNat_sub_eq_emod nowTime c.lastWrite
  have hnow := nowTime.toInt_lt
  have hnow' := nowTime.le_toInt
  have hr := c.lastRead.toInt_lt
  have hr' := c.lastRead.le_toInt
  have hw := c.lastWrite.toInt_lt
  have hw' := c.lastWrite.le_toInt
  have hmax : MAX_IDLE_INTERVAL = 100 := rfl
  rw [Idle, NotSetBack, hmax]
  omega

end SolConnClient

namespace Server

/-- What a tick deletes has been idle for long. -/
def DeletesIdle (s : Server) : ServerAction → Prop
  | .hbt_timer_cb tnow => ∀ i ∈ (s.hbt_timer_cb tnow).deleted.drop s.deleted.length,
    ∃ c, s.clients[i]? = some c ∧ c.Idle tnow
  | _ => True

/-- At a tick the clock was not set back behind the times of a client in the map. -/
def ClockKept (s : Server) : ServerAction → Prop
  | .hbt_timer_cb tnow => ∀ i ∈ s.mapConnClient.map Prod.snd, ∀ c ∈ s.clients[i]?, c.NotSetBack tnow
  | _ => True

instance (s : Server) : (a : ServerAction) → Decidable (s.ClockKept a)
  | .hbt_timer_cb tnow => inferInstanceAs (Decidable (∀ i ∈ _, ∀ c ∈ _, SolConnClient.NotSetBack c tnow))
  | .Start | .Stop | .connect_cb .. | .read_cb .. | .read_error .. | .req_write_cb .. | .closed _ | .idle_cb
  | .work_cb .. | .after_work_cb _ => .isTrue trivial

theorem expired_eq_true_iff {s : Server} {tnow : BitVec 64} {i : Nat} :
    s.expired tnow i = true ↔ ∃ c, s.clients[i]? = some c ∧
      MAX_IDLE_INTERVAL.toNat < (tnow - c.lastRead).toNat ∧ MAX_IDLE_INTERVAL.toNat < (tnow - c.lastWrite).toNat := by
  rw [expired, Option.any_eq_true]
  simp only [Bool.and_eq_true, decide_eq_true_eq]

theorem deleted_hbt_timer_cb (s : Server) (tnow : BitVec 64) :
    (s.hbt_timer_cb tnow).deleted.drop s.deleted.length =
      (s.mapConnClient.map Prod.snd).filter (s.expired tnow) :=
  List.drop_left

theorem deletesIdle_iff_clockKept (s : Server) (a : ServerAction) : s.DeletesIdle a ↔ s.ClockKept a := by
  cases a with
  | hbt_timer_cb tnow =>
    have hexpired : ∀ i, i ∈ (s.hbt_timer_cb tnow).deleted.drop s.deleted.length ↔
        i ∈ s.mapConnClient.map Prod.snd ∧ s.expired tnow i = true := by
      intro i
      rw [deleted_hbt_timer_cb, List.mem_filter]
    constructor
    · intro h i hi c hc
      refine (c.idle_of_expired_iff tnow).1 fun htimes => ?_
      obtain ⟨d, hd, hidle⟩ := h i ((hexpired i).2 ⟨hi, expired_eq_true_iff.2 ⟨c, hc, htimes⟩⟩)
      obtain rfl : c = d := Option.some.inj (hc.symm.trans hd)
      exact hidle
    · intro h i hi
      obtain ⟨hmem, hexp⟩ := (hexpired i).1 hi
      obtain ⟨c, hc, htimes⟩ := expired_eq_true_iff.1 hexp
      exact ⟨c, hc, (c.idle_of_expired_iff tnow).2 (h i hmem c hc) htimes⟩
  | _ => exact Iff.rfl

/-- **In every run, with any readings of the clock, every tick deletes only clients that were idle for
long exactly if at no tick the clock was set back behind a time of a client in the map, unless the other
of its times is recent.** -/
theorem deletesIdle_iff {as : List ServerAction} {t : Server} (h : run step new as = some t) :
    Meets step DeletesIdle new as ↔ Meets step ClockKept new as :=
  meets_congr (fun s a _ _ => deletesIdle_iff_clockKept s a) h

theorem deletesIdle_iff_comesAndGoes :
    Meets step DeletesIdle new comesAndGoes ↔ Meets step ClockKept new comesAndGoes := by
  obtain ⟨t, ht⟩ := Option.isSome_iff_exists.1 comesAndGoes_runs
  exact deletesIdle_iff ht

example : Meets step ClockKept new comesAndGoes := by decide +kernel

/-- A client comes, the clock is set back by a second, and the next tick deletes it. -/
def setBack : List ServerAction :=
  [.connect_cb true (text "127.0.0.1:4000") 7 (fun _ => 0) (fun _ => 0), .hbt_timer_cb 6]

theorem setBack_not_deletesIdle :
    (run step new setBack).map (·.deleted) = some [0] ∧ ¬ Meets step DeletesIdle new setBack := by
  have hruns : (run step new setBack).map (·.deleted) = some [0] := by decide +kernel
  refine ⟨hruns, fun hm => ?_⟩
  obtain ⟨t, ht, -⟩ := Option.map_eq_some_iff.1 hruns
  have hkept : ¬ Meets step ClockKept new setBack := by decide +kernel
  exact hkept ((meets_congr (fun s a _ _ => deletesIdle_iff_clockKept s a) ht).1 hm)

end Server

end CppLinuxLearn.Solcom
