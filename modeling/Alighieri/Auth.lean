import Alighieri.Socks5
import Alighieri.Lib.BoundedTable
import Alighieri.Lib.Transition

/-!
# The user database and its cache of verified credentials (auth.rs:192-248, 471-590; util.rs:23-32)

`verify` asks the stored credential. `verify_async` asks a cache of tags first and leaves the
expensive check to a blocking task. Each label is one step of one call, with the time it reads;
calls may be dropped while they wait.
-/

namespace Alighieri.Auth
open Net Socks5 Table List

/-! ### Credentials -/

def constantTimeEq (a b : Bytes) : Bool :=
  if a.length ≠ b.length then false
  else (a.zip b).foldl (fun diff p => diff ||| (p.1 ^^^ p.2)) 0 == 0

inductive StoredCredential where
  | plain (stored : Text)
  | argon2 (stored : Text)
  deriving DecidableEq, Repr

/- What the program asks of its libraries and its platform: the Argon2 check of a password
against a PHC string, the keyed hash behind the cache tags, and the last time an `Instant` can
hold. -/
structure Env where
  verifyPassword : Text → Text → Bool
  hash : Bytes → Option Bytes
  lastInstant : ℕ

def StoredCredential.verify (env : Env) (password : Text) : StoredCredential → Bool
  | plain stored => constantTimeEq (asBytes stored) (asBytes password)
  | argon2 stored => env.verifyPassword stored password

/- The dummy checks, made for their time, are left out. -/
def verifyStored (env : Env) (stored : Option StoredCredential) (password : Text) : Bool :=
  match stored with
  | some stored => stored.verify env password
  | none => false

abbrev Users := Table Text StoredCredential

def verify (env : Env) (users : Users) (username password : Text) : Bool :=
  verifyStored env (users.lookup username) password

/-! ### The cache -/

def maxVerifiedCacheEntries : ℕ := 1024

structure VerifiedEntry where
  tag : Bytes
  expiresAt : ℕ
  deriving DecidableEq, Repr

abbrev Entries := Table Text VerifiedEntry

def tag (env : Env) (username password : Text) : Option Bytes :=
  env.hash (asBytes username ++ 0 :: asBytes password)

def check (entries : Entries) (username : Text) (tag : Bytes) (now : ℕ) : Bool × Entries :=
  match entries.lookup username with
  | none => (false, entries)
  | some entry =>
    if entry.expiresAt ≤ now then (false, entries.erase username)
    else (constantTimeEq entry.tag tag, entries)

/- `pick` stands for the order in which the hash map is searched for the entry that expires
first. -/
def store (entries : Entries) (username : Text) (tag : Bytes) (expiresAt now : ℕ) (pick : Text) :
    Entries :=
  insertBounded maxVerifiedCacheEntries (fun entry => decide (now < entry.expiresAt))
    (oldest VerifiedEntry.expiresAt pick) entries username ⟨tag, expiresAt⟩

/- `Instant::checked_add`. -/
def checkedAdd (env : Env) (now ttl : ℕ) : Option ℕ :=
  if now + ttl ≤ env.lastInstant then some (now + ttl) else none

/-! ### Calls of `verify_async` -/

inductive Pc where
  | start
  /- The permit and the blocking task are awaited. -/
  | verifying (cached : Option (Bytes × ℕ))
  | verified (cached : Option (Bytes × ℕ)) (ok : Bool)
  | returned (ok : Bool)
  | dropped
  deriving DecidableEq, Repr

structure Call where
  username : Text
  password : Text
  cacheTtl : Option ℕ
  pc : Pc
  deriving DecidableEq, Repr

structure State where
  entries : Entries
  calls : Table ℕ Call
  next : ℕ

variable {username : Text} {t : Bytes} {entries : Entries} {call : Call} {s : State}

def State.start : State := ⟨∅, ∅, 0⟩

/- One step of one call. The blocking task answers with what `verify_stored` says, or it fails;
a call that waits for it may be dropped. -/
inductive Label where
  | call (username password : Text) (cacheTtl : Option ℕ)
  | run (id now : ℕ) (pick : Text)
  | fail (id : ℕ)
  | drop (id : ℕ)
  deriving DecidableEq, Repr

def Label.fails : Label → Prop
  | fail _ => True
  | _ => False

instance : DecidablePred Label.fails
  | .fail _ => .isTrue trivial
  | .call .. | .run .. | .drop _ => .isFalse id

def State.goto (s : State) (id : ℕ) (call : Call) (pc : Pc) : State :=
  { s with calls := s.calls.insert id { call with pc := pc } }

/- Up to the first await: the answer is in the cache or is to be worked out. -/
def begin (env : Env) (s : State) (id now : ℕ) (call : Call) : State :=
  let cached := call.cacheTtl.bind fun ttl =>
    (tag env call.username call.password).map fun tag => (tag, ttl)
  match cached with
  | none => s.goto id call (.verifying none)
  | some (tag, ttl) =>
    let (hit, entries) := check s.entries call.username tag now
    let s := { s with entries := entries }
    if hit then s.goto id call (.returned true) else s.goto id call (.verifying (some (tag, ttl)))

/- After the blocking task: a success is remembered. -/
def finish (env : Env) (s : State) (id now : ℕ) (pick : Text) (call : Call)
    (cached : Option (Bytes × ℕ)) (ok : Bool) : State :=
  let entries :=
    match ok, cached with
    | true, some (tag, ttl) =>
      match checkedAdd env now ttl with
      | some expiresAt => store s.entries call.username tag expiresAt now pick
      | none => s.entries
    | _, _ => s.entries
  { s with entries := entries }.goto id call (.returned ok)

def step (env : Env) (users : Users) (s : State) : Label → Option State
  | .call username password cacheTtl =>
    some { s with
      calls := s.calls.insert s.next ⟨username, password, cacheTtl, .start⟩
      next := s.next + 1 }
  | .run id now pick =>
    match s.calls.lookup id with
    | none => none
    | some call =>
      match call.pc with
      | .start => some (begin env s id now call)
      | .verifying cached =>
        some (s.goto id call
          (.verified cached (verifyStored env (users.lookup call.username) call.password)))
      | .verified cached ok => some (finish env s id now pick call cached ok)
      | .returned _ => none
      | .dropped => none
  | .fail id =>
    match s.calls.lookup id with
    | none => none
    | some call =>
      match call.pc with
      | .verifying cached => some (s.goto id call (.verified cached false))
      | _ => none
  | .drop id =>
    match s.calls.lookup id with
    | none => none
    | some call =>
      match call.pc with
      | .verifying _ => some (s.goto id call .dropped)
      | _ => none

/-! ### The comparison -/

theorem foldl_diff_eq_zero (l : List (UInt8 × UInt8)) (diff : UInt8) :
    l.foldl (fun diff p => diff ||| (p.1 ^^^ p.2)) diff = 0 ↔ diff = 0 ∧ ∀ p ∈ l, p.1 = p.2 := by
  induction l generalizing diff with
  | nil => simp
  | cons p l ih =>
    rw [foldl_cons, ih, UInt8.or_eq_zero_iff, UInt8.xor_eq_zero_iff, forall_mem_cons,
      and_assoc]

theorem eq_of_zip {a b : Bytes} (hlen : a.length = b.length) (h : ∀ p ∈ a.zip b, p.1 = p.2) :
    a = b := by
  induction a generalizing b with
  | nil => exact (length_eq_zero_iff.mp hlen.symm).symm
  | cons x a ih =>
    cases b with
    | nil => cases hlen
    | cons y b =>
      rw [zip_cons_cons, forall_mem_cons] at h
      rw [show x = y from h.1, ih (Nat.succ.inj hlen) h.2]

theorem constantTimeEq_iff {a b : Bytes} : constantTimeEq a b = true ↔ a = b := by
  unfold constantTimeEq
  constructor
  · intro h
    split at h
    · cases h
    rename_i hlen
    rw [beq_iff_eq, foldl_diff_eq_zero] at h
    exact eq_of_zip (not_not.mp hlen) h.2
  · rintro rfl
    rw [if_neg (by simp), beq_iff_eq, foldl_diff_eq_zero]
    refine ⟨rfl, fun p hp => ?_⟩
    have hself : ∀ l : Bytes, ∀ q ∈ l.zip l, q.1 = q.2 := by
      intro l
      induction l with
      | nil => exact fun q hq => absurd hq not_mem_nil
      | cons x l ih =>
        rw [zip_cons_cons, forall_mem_cons]
        exact ⟨rfl, ih⟩
    exact hself a p hp

/-! ### What the cache holds -/

section

variable {env : Env} {users : Users}

def Genuine (env : Env) (users : Users) (entries : Entries) : Prop :=
  ∀ username entry, entries.lookup username = some entry →
    ∃ password, tag env username password = some entry.tag ∧
      verify env users username password = true

theorem Genuine.sub {entries' : Entries} (h : Genuine env users entries)
    (hsub : ∀ {k e}, entries'.lookup k = some e → entries.lookup k = some e) :
    Genuine env users entries' :=
  fun username entry hentry => h username entry (hsub hentry)

theorem check_sub {k : Text} {now : ℕ} {e : VerifiedEntry}
    (h : (check entries username t now).2.lookup k = some e) : entries.lookup k = some e := by
  unfold check at h
  split at h
  · exact h
  · split at h
    · exact lookup_of_erase h
    · exact h

theorem check_size (entries : Entries) (username : Text) (t : Bytes) (now : ℕ) :
    size (check entries username t now).2 ≤ size entries := by
  unfold check
  split
  · exact le_refl _
  · split
    · exact size_erase_le entries username
    · exact le_refl _

theorem check_hit {now : ℕ} (h : (check entries username t now).1 = true) :
    ∃ entry, entries.lookup username = some entry ∧ entry.tag = t ∧ now < entry.expiresAt := by
  unfold check at h
  split at h
  · cases h
  rename_i entry hentry
  split at h
  · cases h
  · exact ⟨entry, hentry, constantTimeEq_iff.mp h, by omega⟩

theorem Genuine.store (h : Genuine env users entries) {password : Text}
    (ht : tag env username password = some t)
    (hverify : verify env users username password = true) (expiresAt now : ℕ) (pick : Text) :
    Genuine env users (store entries username t expiresAt now pick) := by
  intro k entry hentry
  rcases lookup_insertBounded hentry with ⟨rfl, rfl⟩ | hold
  · exact ⟨password, ht, hverify⟩
  · exact h k entry hold

theorem store_size (h : size entries ≤ maxVerifiedCacheEntries) (username : Text)
    (t : Bytes) (expiresAt now : ℕ) (pick : Text) :
    size (store entries username t expiresAt now pick) ≤ maxVerifiedCacheEntries :=
  size_insertBounded (by decide) (oldest_finds _ pick) h _

/-! ### The invariant -/

/- The tag a call carries is its own, and its answer is that of `verify`. -/
def Call.Sound (env : Env) (users : Users) (call : Call) : Prop :=
  match call.pc with
  | .start => True
  | .verifying cached => ∀ t ttl, cached = some (t, ttl) →
      tag env call.username call.password = some t
  | .verified cached ok => ok = verify env users call.username call.password ∧
      ∀ t ttl, cached = some (t, ttl) → tag env call.username call.password = some t
  | .returned ok => ok = verify env users call.username call.password
  | .dropped => True

structure Inv (env : Env) (users : Users) (s : State) : Prop where
  genuine : Genuine env users s.entries
  bounded : size s.entries ≤ maxVerifiedCacheEntries
  calls : ∀ id call, s.calls.lookup id = some call → call.Sound env users

theorem Inv.start : Inv env users State.start :=
  ⟨fun _ _ h => (by cases h), Nat.zero_le _, fun _ _ h => (by cases h)⟩

theorem Inv.goto (h : Inv env users s) (hgenuine : Genuine env users entries)
    (hbounded : size entries ≤ maxVerifiedCacheEntries) (id : ℕ) {pc : Pc}
    (hpc : ({ call with pc := pc } : Call).Sound env users) :
    Inv env users (State.goto { s with entries := entries } id call pc) := by
  refine ⟨hgenuine, hbounded, fun k c hc => ?_⟩
  by_cases hk : k = id
  · subst hk
    have hself : (s.calls.insert k { call with pc := pc }).lookup k = some c := hc
    rw [AList.lookup_insert] at hself
    cases hself
    exact hpc
  · have hother : (s.calls.insert id { call with pc := pc }).lookup k = some c := hc
    rw [AList.lookup_insert_ne hk] at hother
    exact h.calls k c hother

theorem Inv.begin (h : Inv env users s)
    (hinj : ∀ u p p' t, tag env u p = some t → tag env u p' = some t → p = p') (id now : ℕ)
    (call : Call) : Inv env users (begin env s id now call) := by
  unfold Auth.begin
  simp only
  split
  · exact h.goto h.genuine h.bounded id fun t ttl hcached => by cases hcached
  · rename_i t ttl hcached
    obtain ⟨ttl', -, hmap⟩ := Option.bind_eq_some_iff.mp hcached
    obtain ⟨t', ht, hpair⟩ := Option.map_eq_some_iff.mp hmap
    cases hpair
    have hgenuine : Genuine env users (check s.entries call.username t now).2 :=
      h.genuine.sub check_sub
    have hbounded := le_trans (check_size s.entries call.username t now) h.bounded
    split
    · rename_i hhit
      obtain ⟨entry, hentry, htag, -⟩ := check_hit hhit
      obtain ⟨password, hp, hverify⟩ := h.genuine _ _ hentry
      rw [htag] at hp
      have hsame := hinj _ _ _ _ hp ht
      subst hsame
      exact h.goto hgenuine hbounded id hverify.symm
    · refine h.goto hgenuine hbounded id fun t' ttl' heq => ?_
      cases heq
      exact ht

theorem Inv.finish (h : Inv env users s) (id now : ℕ) (pick : Text) {cached : Option (Bytes × ℕ)}
    {ok : Bool} (hok : ok = verify env users call.username call.password)
    (htag : ∀ t ttl, cached = some (t, ttl) → tag env call.username call.password = some t) :
    Inv env users (finish env s id now pick call cached ok) := by
  unfold Auth.finish
  simp only
  split
  · rename_i t ttl
    have ht := htag t ttl rfl
    split
    · exact h.goto (h.genuine.store ht hok.symm _ now pick) (store_size h.bounded ..) id hok
    · exact h.goto h.genuine h.bounded id hok
  · exact h.goto h.genuine h.bounded id hok

theorem Inv.step {t : State} {label : Label} (h : Inv env users s)
    (hinj : ∀ u p p' t, tag env u p = some t → tag env u p' = some t → p = p')
    (hfails : ¬ label.fails) (hstep : step env users s label = some t) : Inv env users t := by
  cases label with
  | call =>
    cases hstep
    refine ⟨h.genuine, h.bounded, fun k c hc => ?_⟩
    by_cases hk : k = s.next
    · subst hk
      rw [AList.lookup_insert] at hc
      cases hc
      trivial
    · rw [AList.lookup_insert_ne hk] at hc
      exact h.calls k c hc
  | run id now pick =>
    simp only [Auth.step] at hstep
    split at hstep
    · cases hstep
    rename_i call hcall
    have hsound := h.calls id call hcall
    unfold Call.Sound at hsound
    split at hstep
    · cases hstep
      exact h.begin hinj id now call
    · rename_i hpc
      rw [hpc] at hsound
      cases hstep
      exact h.goto h.genuine h.bounded id ⟨rfl, hsound⟩
    · rename_i hpc
      rw [hpc] at hsound
      cases hstep
      exact h.finish id now pick hsound.1 hsound.2
    · cases hstep
    · cases hstep
  | fail id => exact absurd trivial hfails
  | drop id =>
    simp only [Auth.step] at hstep
    split at hstep
    · cases hstep
    split at hstep
    · cases hstep
      exact h.goto h.genuine h.bounded id trivial
    · cases hstep

end

def Pc.left : Pc → ℕ
  | start => 3
  | verifying _ => 2
  | verified _ _ => 1
  | returned _ => 0
  | dropped => 0

theorem goto_lookup (s : State) (id : ℕ) (call : Call) (pc : Pc) :
    (s.goto id call pc).calls.lookup id = some { call with pc := pc } :=
  AList.lookup_insert s.calls

theorem run_left {env : Env} {users : Users} {id : ℕ} (hcall : s.calls.lookup id = some call)
    (hleft : 0 < call.pc.left) (now : ℕ) (pick : Text) :
    ∃ t call', step env users s (.run id now pick) = some t ∧ t.calls.lookup id = some call' ∧
      call'.pc.left < call.pc.left ∧ call'.pc ≠ .dropped := by
  simp only [step, hcall]
  cases hpc : call.pc with
  | start =>
    simp only [begin]
    split
    · exact ⟨_, _, rfl, goto_lookup .., by simp [Pc.left], by simp⟩
    · split
      · exact ⟨_, _, rfl, goto_lookup .., by simp [Pc.left], by simp⟩
      · exact ⟨_, _, rfl, goto_lookup .., by simp [Pc.left], by simp⟩
  | verifying | verified =>
    exact ⟨_, _, rfl, goto_lookup .., by simp [Pc.left], by simp⟩
  | returned ok | dropped =>
    rw [hpc] at hleft
    cases hleft

/-- However the calls interleave: where no two passwords of a user have one tag and no blocking
task fails, every answer is that of `verify`, every call can go on to its answer, and the cache
stays within its bound. -/
theorem verify_async_agrees (env : Env) (users : Users)
    (hinj : ∀ u p p' t, tag env u p = some t → tag env u p' = some t → p = p') {s : State}
    (h : Lts.ReachableBy (step env users) (fun _ label => ¬ label.fails) State.start s) :
    (∀ id call ok, s.calls.lookup id = some call → call.pc = .returned ok →
      ok = verify env users call.username call.password) ∧
    (∀ id call, s.calls.lookup id = some call → 0 < call.pc.left → ∀ now pick,
      ∃ t call', step env users s (.run id now pick) = some t ∧ t.calls.lookup id = some call' ∧
        call'.pc.left < call.pc.left ∧ call'.pc ≠ .dropped) ∧
    size s.entries ≤ maxVerifiedCacheEntries := by
  have hinv : Inv env users s :=
    h.invariant Inv.start fun s label t hs hfails hstep => hs.step hinj hfails hstep
  refine ⟨fun id call ok hcall hpc => ?_, fun id call => run_left, hinv.bounded⟩
  have hsound := hinv.calls id call hcall
  unfold Call.Sound at hsound
  rwa [hpc] at hsound

def plainEnv : Env := ⟨fun _ _ => false, some, 100⟩

def aliceUsers : Users := (∅ : Users).insert "alice".toList (.plain "pw".toList)

def aliceLabels : List Label :=
  [.call "alice".toList "pw".toList (some 10), .run 0 1 [], .run 0 2 [], .run 0 3 [],
    .call "alice".toList "pw".toList (some 10), .run 1 12 []]

theorem verify_async_agrees_cached :
    ∃ s call, Lts.execBy (step plainEnv aliceUsers) (fun _ label => ¬ label.fails) State.start
        aliceLabels = some s ∧
      s.calls.lookup 1 = some call ∧ call.pc = .returned true ∧
      true = verify plainEnv aliceUsers call.username call.password := by
  have hinj : ∀ u p p' t, tag plainEnv u p = some t → tag plainEnv u p' = some t → p = p' := by
    intro u p p' t hp hp'
    have hbytes : asBytes u ++ 0 :: asBytes p = asBytes u ++ 0 :: asBytes p' :=
      Option.some.inj (hp.trans hp'.symm)
    exact asBytes_inj (cons.inj (append_cancel_left hbytes)).2
  have hpc : (Lts.execBy (step plainEnv aliceUsers) (fun _ label => ¬ label.fails) State.start
      aliceLabels).bind (fun s => (s.calls.lookup 1).map Call.pc) = some (.returned true) := by
    decide +kernel
  obtain ⟨s, hs, hcalls⟩ := Option.bind_eq_some_iff.mp hpc
  obtain ⟨call, hcall, hret⟩ := Option.map_eq_some_iff.mp hcalls
  have hreach := Lts.reachableBy_execBy aliceLabels .start hs
  exact ⟨s, call, hs, hcall, hret,
    (verify_async_agrees plainEnv aliceUsers hinj hreach).1 1 call true hcall hret⟩

end Alighieri.Auth
