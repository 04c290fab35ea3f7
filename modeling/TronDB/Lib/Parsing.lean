import Mathlib.Data.List.Infix

/-! Parsers of lists of tokens: what they leave is what stood at the end of what they were given.
With it the loops of a recursive descent parser end. -/
namespace Parsing

variable {T E α β σ τ : Type}

/-- A failure, or a value and the tokens behind what was read. -/
structure Parser (T E α : Type) where
  run : List T → Except E (α × List T)
  leaves : ∀ ts a rest, run ts = .ok (a, rest) → rest <:+ ts

namespace Parser

@[ext] theorem ext {p q : Parser T E α} (same : ∀ ts, p.run ts = q.run ts) : p = q := by
  cases p
  cases q
  simp only [mk.injEq]
  exact funext same

instance : Monad (Parser T E) where
  pure a := ⟨fun ts => .ok (a, ts), by simp⟩
  bind p k :=
    { run ts := match p.run ts with
        | .ok (a, rest) => (k a).run rest
        | .error e => .error e
      leaves ts b rest ran := by
        split at ran
        · rename_i a between first
          exact ((k a).leaves _ _ _ ran).trans (p.leaves _ _ _ first)
        · contradiction }

theorem run_bind (p : Parser T E α) (k : α → Parser T E β) (ts : List T) :
    (p >>= k).run ts = match p.run ts with
      | .ok (a, rest) => (k a).run rest
      | .error e => .error e := rfl

theorem run_bind_ok {p : Parser T E α} {k : α → Parser T E β} {ts rest : List T} {a : α}
    (ran : p.run ts = .ok (a, rest)) : (p >>= k).run ts = (k a).run rest := by
  simp [run_bind, ran]

theorem run_bind_inv {p : Parser T E α} {k : α → Parser T E β} {ts rest : List T} {b : β}
    (ran : (p >>= k).run ts = .ok (b, rest)) :
    ∃ a between, p.run ts = .ok (a, between) ∧ (k a).run between = .ok (b, rest) := by
  rw [run_bind] at ran
  cases first : p.run ts with
  | error e =>
    rw [first] at ran
    cases ran
  | ok read =>
    rw [first] at ran
    exact ⟨read.1, read.2, rfl, ran⟩

theorem run_map (f : α → β) (p : Parser T E α) (ts : List T) :
    (f <$> p).run ts = (p.run ts).map fun (a, rest) => (f a, rest) := by
  change (p >>= fun a => pure (f a)).run ts = _
  rw [run_bind]
  cases p.run ts <;> rfl

theorem map_id' (p : Parser T E α) : id <$> p = p := by
  ext1 ts
  rw [run_map]
  cases p.run ts <;> rfl

theorem bind_assoc' {γ : Type} (p : Parser T E α) (k : α → Parser T E β) (l : β → Parser T E γ) :
    p >>= k >>= l = p >>= fun a => k a >>= l := by
  ext1 ts
  simp only [run_bind]
  cases p.run ts <;> rfl

instance : LawfulMonad (Parser T E) := LawfulMonad.mk' _ map_id' (fun _ _ => rfl) bind_assoc'

def rest : Parser T E (List T) := ⟨fun ts => .ok (ts, ts), by simp⟩

def peek : Parser T E (Option T) := List.head? <$> rest

def advance : Parser T E (Option T) :=
  { run ts := .ok (ts.head?, ts.tail)
    leaves ts a rest ran := by
      simp only [Except.ok.injEq, Prod.mk.injEq] at ran
      exact ran.2 ▸ List.tail_suffix ts }

def fail (e : E) : Parser T E α := ⟨fun _ => .error e, by simp⟩

@[simp] theorem map_fail (f : α → β) (e : E) : f <$> (fail e : Parser T E α) = fail e := rfl

/-! ### Loops -/

/-- What goes round once for a token, at most, comes to the same with any number of rounds that is
not smaller than that of the tokens. -/
theorem enough_rounds {R : Type} {g : Nat → List T → R} (nil : ∀ m n, g m [] = g n [])
    (step : ∀ m n t ts, (∀ us : List T, us.length ≤ ts.length → g m us = g n us) →
      g (m + 1) (t :: ts) = g (n + 1) (t :: ts))
    {m n : Nat} {ts : List T} (left : ts.length ≤ m) (right : ts.length ≤ n) : g m ts = g n ts := by
  induction m generalizing n ts with
  | zero =>
    obtain rfl := List.length_eq_zero_iff.mp (Nat.le_zero.mp left)
    exact nil 0 n
  | succ m ih =>
    cases ts with
    | nil => exact nil _ _
    | cons t ts =>
      obtain ⟨n, rfl⟩ : ∃ k, n = k + 1 := ⟨n - 1, by simp at right; omega⟩
      simp only [List.length_cons, Nat.add_le_add_iff_right] at left right
      apply step
      intro us shorter
      exact ih (shorter.trans left) (shorter.trans right)

section Loop
variable (body : T → σ → Option (Parser T E σ))

/-- Whatever the body does, it does behind a token that is already taken. -/
def loopFrom : Nat → σ → List T → Except E (σ × List T)
  | _, s, [] => .ok (s, [])
  | 0, s, ts => .ok (s, ts)
  | fuel + 1, s, t :: ts =>
    match body t s with
    | none => .ok (s, t :: ts)
    | some p => match p.run ts with
      | .ok (s, rest) => loopFrom fuel s rest
      | .error e => .error e

theorem loopFrom_cons (fuel : Nat) (s : σ) (t : T) (ts : List T) :
    loopFrom body (fuel + 1) s (t :: ts) =
      match body t s with
      | none => .ok (s, t :: ts)
      | some p => match p.run ts with
        | .ok (s, rest) => loopFrom body fuel s rest
        | .error e => .error e := rfl

theorem loopFrom_leaves (fuel : Nat) (s : σ) (ts : List T) (s' : σ) (rest : List T)
    (ran : loopFrom body fuel s ts = .ok (s', rest)) : rest <:+ ts := by
  induction fuel generalizing s ts with
  | zero =>
    cases ts <;> cases ran <;> exact List.suffix_rfl
  | succ fuel ih =>
    cases ts with
    | nil =>
      cases ran
      exact List.suffix_rfl
    | cons t ts =>
      rw [loopFrom_cons] at ran
      cases next : body t s with
      | none => simp_all
      | some p =>
        simp only [next] at ran
        cases read : p.run ts with
        | error e => simp [read] at ran
        | ok out =>
          simp only [read] at ran
          exact (ih _ _ ran).trans ((p.leaves _ _ _ read).trans (List.suffix_cons t ts))

theorem loopFrom_enough (fuel : Nat) (s : σ) (ts : List T) (enough : ts.length ≤ fuel) :
    loopFrom body fuel s ts = loopFrom body ts.length s ts := by
  have same := enough_rounds (g := fun n ts s => loopFrom body n s ts) ?_ ?_ enough (le_refl _)
  · exact congrFun same s
  · intro m n
    cases m <;> cases n <;> rfl
  · intro m n t ts agree
    funext s
    simp only [loopFrom_cons]
    cases body t s with
    | none => rfl
    | some p =>
      dsimp only
      cases read : p.run ts with
      | error e => rfl
      | ok out => exact congrFun (agree _ (p.leaves _ _ _ read).length_le) _

/-- While the next token has a body: takes the token and runs the body on the state. -/
def loop (s : σ) : Parser T E σ :=
  ⟨fun ts => loopFrom body ts.length s ts, fun ts => loopFrom_leaves body ts.length s ts⟩

variable {body}

theorem loop_stop {s : σ} {t : T} (stop : body t s = none) (ts : List T) :
    (loop body s).run (t :: ts) = .ok (s, t :: ts) := by
  simp [loop, loopFrom_cons, stop]

theorem loop_step {s s' : σ} {t : T} {p : Parser T E σ} {ts rest : List T}
    (next : body t s = some p) (ran : p.run ts = .ok (s', rest)) :
    (loop body s).run (t :: ts) = (loop body s').run rest := by
  simp only [loop, List.length_cons, loopFrom_cons, next, ran]
  exact loopFrom_enough body _ _ _ (p.leaves _ _ _ ran).length_le

theorem loop_map {body' : T → τ → Option (Parser T E τ)} (f : σ → τ)
    (step : ∀ t s, body' t (f s) = (body t s).map (f <$> ·)) (s : σ) :
    loop body' (f s) = f <$> loop body s := by
  ext1 ts
  rw [run_map]
  change loopFrom body' ts.length (f s) ts =
    (loopFrom body ts.length s ts).map fun (s, rest) => (f s, rest)
  generalize ts.length = fuel
  induction fuel generalizing s ts with
  | zero => cases ts <;> rfl
  | succ fuel ih =>
    cases ts with
    | nil => rfl
    | cons t ts =>
      simp only [loopFrom_cons, step]
      cases body t s with
      | none => rfl
      | some p =>
        simp only [Option.map_some, run_map]
        cases p.run ts with
        | error e => rfl
        | ok out => exact ih _ _

end Loop

/-- What stands behind each token of a kind, as long as one follows. -/
def repeated (start : T → Bool) (item : Parser T E α) (items : List α) : Parser T E (List α) :=
  loop (fun t items => if start t then some ((fun a => items ++ [a]) <$> item) else none) items

theorem repeated_map (start : T → Bool) (f : α → β) (item : Parser T E α) (items : List α) :
    repeated start (f <$> item) (items.map f) = List.map f <$> repeated start item items := by
  apply loop_map
  intro t items
  cases start t <;> simp

/-! ### Prefixes -/

section Nest
variable (next : T → Option (Parser T E (Option α))) (wrap : α → α) (base : Parser T E α)

def nestFrom : Nat → List T → Except E (α × List T)
  | _, [] => base.run []
  | 0, ts => base.run ts
  | fuel + 1, t :: ts =>
    match next t with
    | none => base.run (t :: ts)
    | some p => match p.run ts with
      | .ok (some a, rest) => .ok (a, rest)
      | .ok (none, rest) => (nestFrom fuel rest).map fun (a, rest) => (wrap a, rest)
      | .error e => .error e

theorem nestFrom_cons (fuel : Nat) (t : T) (ts : List T) :
    nestFrom next wrap base (fuel + 1) (t :: ts) =
      match next t with
      | none => base.run (t :: ts)
      | some p => match p.run ts with
        | .ok (some a, rest) => .ok (a, rest)
        | .ok (none, rest) =>
          (nestFrom next wrap base fuel rest).map fun (a, rest) => (wrap a, rest)
        | .error e => .error e := rfl

theorem nestFrom_leaves (fuel : Nat) (ts : List T) (a : α) (rest : List T)
    (ran : nestFrom next wrap base fuel ts = .ok (a, rest)) : rest <:+ ts := by
  induction fuel generalizing ts a with
  | zero => cases ts <;> exact base.leaves _ _ _ ran
  | succ fuel ih =>
    cases ts with
    | nil => exact base.leaves _ _ _ ran
    | cons t ts =>
      rw [nestFrom_cons] at ran
      cases prefixed : next t with
      | none =>
        simp only [prefixed] at ran
        exact base.leaves _ _ _ ran
      | some p =>
        simp only [prefixed] at ran
        cases read : p.run ts with
        | error e => simp [read] at ran
        | ok out =>
          obtain ⟨found, between⟩ := out
          have behind := (p.leaves _ _ _ read).trans (List.suffix_cons t ts)
          cases found with
          | some a => simp_all
          | none =>
            simp only [read] at ran
            cases inner : nestFrom next wrap base fuel between with
            | error e => simp [inner, Except.map] at ran
            | ok out =>
              simp only [inner, Except.map, Except.ok.injEq, Prod.mk.injEq] at ran
              exact (ih between out.1 (by simp [inner, ← ran.2])).trans behind

theorem nestFrom_enough (fuel : Nat) (ts : List T) (enough : ts.length ≤ fuel) :
    nestFrom next wrap base fuel ts = nestFrom next wrap base ts.length ts := by
  apply enough_rounds (g := nestFrom next wrap base) ?_ ?_ enough (le_refl _)
  · intro m n
    cases m <;> cases n <;> rfl
  · intro m n t ts agree
    simp only [nestFrom_cons]
    cases next t with
    | none => rfl
    | some p =>
      dsimp only
      cases read : p.run ts with
      | error e => rfl
      | ok out =>
        obtain ⟨found, between⟩ := out
        cases found with
        | some a => rfl
        | none => simp only [agree _ (p.leaves _ _ _ read).length_le]

/-- Behind a token that is a prefix, unless what follows it decides otherwise, stands the same
again. -/
def nest : Parser T E α :=
  ⟨fun ts => nestFrom next wrap base ts.length ts,
    fun ts => nestFrom_leaves next wrap base ts.length ts⟩

variable {next wrap base}

theorem nest_base {ts : List T} (stop : ∀ t ∈ ts.head?, next t = none) :
    (nest next wrap base).run ts = base.run ts := by
  cases ts with
  | nil => rfl
  | cons t ts => simp [nest, nestFrom_cons, stop t rfl]

theorem nest_prefix {t : T} {p : Parser T E (Option α)} {ts rest : List T}
    (prefixed : next t = some p) (ran : p.run ts = .ok (none, rest)) :
    (nest next wrap base).run (t :: ts) = (wrap <$> nest next wrap base).run rest := by
  simp only [nest, List.length_cons, nestFrom_cons, prefixed, ran, run_map]
  rw [nestFrom_enough next wrap base _ _ (p.leaves _ _ _ ran).length_le]

theorem nest_map {next' : T → Option (Parser T E (Option β))} {wrap' : β → β} (f : α → β)
    (step : ∀ t, next' t = (next t).map (Option.map f <$> ·)) (wraps : ∀ a, wrap' (f a) = f (wrap a)) :
    nest next' wrap' (f <$> base) = f <$> nest next wrap base := by
  ext1 ts
  rw [run_map]
  change nestFrom next' wrap' (f <$> base) ts.length ts =
    (nestFrom next wrap base ts.length ts).map fun (a, rest) => (f a, rest)
  generalize ts.length = fuel
  induction fuel generalizing ts with
  | zero => cases ts <;> exact run_map f base _
  | succ fuel ih =>
    cases ts with
    | nil => exact run_map f base _
    | cons t ts =>
      simp only [nestFrom_cons, step]
      cases next t with
      | none => exact run_map f base _
      | some p =>
        simp only [Option.map_some, run_map]
        cases p.run ts with
        | error e => rfl
        | ok out =>
          obtain ⟨found, between⟩ := out
          cases found with
          | some a => rfl
          | none =>
            simp only [Except.map, Option.map_none, ih]
            cases nestFrom next wrap base fuel between <;> simp [wraps]

end Nest

/-! ### What is read as what -/

/-- These tokens are read as the value, before anything that may follow. -/
def Reads (p : Parser T E α) (ts : List T) (a : α) (follow : Option T → Prop) : Prop :=
  ∀ rest, follow rest.head? → p.run (ts ++ rest) = .ok (a, rest)

section Reads
variable {p : Parser T E α} {k : α → Parser T E β} {a : α} {b : β} {ts us : List T}
  {follow between : Option T → Prop}

theorem reads_pure : Reads (pure a : Parser T E α) [] a follow := fun _ _ => rfl

theorem Reads.bind (first : Reads p ts a between) (second : Reads (k a) us b follow)
    (joins : ∀ rest, follow rest.head? → between (us ++ rest).head?) :
    Reads (p >>= k) (ts ++ us) b follow := by
  intro rest may
  rw [List.append_assoc, run_bind_ok (first _ (joins rest may))]
  exact second rest may

theorem Reads.andThen (first : Reads p ts a fun _ => True) (second : Reads (k a) us b follow) :
    Reads (p >>= k) (ts ++ us) b follow :=
  first.bind second fun _ _ => trivial

theorem Reads.map (f : α → β) (read : Reads p ts a follow) : Reads (f <$> p) ts (f a) follow := by
  intro rest may
  rw [run_map, read rest may]
  rfl

theorem Reads.mono (read : Reads p ts a between) (fewer : ∀ next, follow next → between next) :
    Reads p ts a follow :=
  fun rest may => read rest (fewer _ may)

end Reads

section LoopReads
variable {body : T → σ → Option (Parser T E σ)} {p : Parser T E σ} {s s' s'' : σ} {t : T}
  {ts us : List T} {follow between : Option T → Prop}

theorem reads_loop_nil (stop : ∀ t, follow (some t) → body t s = none) :
    Reads (loop body s) [] s follow := by
  intro rest may
  cases rest with
  | nil => rfl
  | cons t ts => exact loop_stop (stop t may) ts

theorem reads_loop_cons (next : body t s = some p) (read : Reads p ts s' between)
    (more : Reads (loop body s') us s'' follow)
    (joins : ∀ rest, follow rest.head? → between (us ++ rest).head?) :
    Reads (loop body s) (t :: ts ++ us) s'' follow := by
  intro rest may
  rw [List.append_assoc, List.cons_append, loop_step next (read _ (joins rest may))]
  exact more rest may

end LoopReads

end Parser
end Parsing
