import Mathlib.Init

/-! Programs that read and write a store inside transactions, commit, and call
a remote service. A program is a tree of its effects: what it does next may
depend on what it read and on what the service answered. -/

namespace Tx

/-- `σ` is the store, `W` the writes, `Q` and `R` the requests to the service
and its replies, `ε` the exceptions. -/
inductive Prog (σ W Q R ε α : Type) : Type where
  | ret (a : α)
  | raise (e : ε)
  | read (k : σ → Prog σ W Q R ε α)
  | write (u : W) (k : Prog σ W Q R ε α)
  | commit (k : Prog σ W Q R ε α)
  | call (q : Q) (k : R → Prog σ W Q R ε α)

variable {σ W Q R ε α β ι : Type}

namespace Prog

def bind : Prog σ W Q R ε α → (α → Prog σ W Q R ε β) → Prog σ W Q R ε β
  | ret a, f => f a
  | raise e, _ => raise e
  | read k, f => read fun s => (k s).bind f
  | write u k, f => write u (k.bind f)
  | commit k, f => commit (k.bind f)
  | call q k, f => call q fun r => (k r).bind f

/-- The handler runs in the same transaction: what was written before the
exception stays in the store. -/
def tryCatch : Prog σ W Q R ε α → (ε → Prog σ W Q R ε α) → Prog σ W Q R ε α
  | ret a, _ => ret a
  | raise e, f => f e
  | read k, f => read fun s => (k s).tryCatch f
  | write u k, f => write u (k.tryCatch f)
  | commit k, f => commit (k.tryCatch f)
  | call q k, f => call q fun r => (k r).tryCatch f

instance : Monad (Prog σ W Q R ε) where
  pure := ret
  bind := bind

instance : MonadExceptOf ε (Prog σ W Q R ε) where
  throw := raise
  tryCatch := tryCatch

@[simp] theorem pure_eq (a : α) : (pure a : Prog σ W Q R ε α) = ret a := rfl

@[simp] theorem throw_eq (e : ε) : (throw e : Prog σ W Q R ε α) = raise e := rfl

@[simp] theorem ret_bind (a : α) (f : α → Prog σ W Q R ε β) : (ret a >>= f) = f a := rfl

@[simp] theorem raise_bind (e : ε) (f : α → Prog σ W Q R ε β) : (raise e >>= f) = raise e := rfl

@[simp] theorem read_bind (k : σ → Prog σ W Q R ε α) (f : α → Prog σ W Q R ε β) :
    (read k >>= f) = read fun s => k s >>= f := rfl

@[simp] theorem write_bind (u : W) (k : Prog σ W Q R ε α) (f : α → Prog σ W Q R ε β) :
    (write u k >>= f) = write u (k >>= f) := rfl

@[simp] theorem commit_bind (k : Prog σ W Q R ε α) (f : α → Prog σ W Q R ε β) :
    (commit k >>= f) = commit (k >>= f) := rfl

@[simp] theorem call_bind (q : Q) (k : R → Prog σ W Q R ε α) (f : α → Prog σ W Q R ε β) :
    (call q k >>= f) = call q fun r => k r >>= f := rfl

def get : Prog σ W Q R ε σ := read ret

def put (u : W) : Prog σ W Q R ε Unit := write u (ret ())

def commitNow : Prog σ W Q R ε Unit := commit (ret ())

def request (q : Q) : Prog σ W Q R ε R := call q ret

def ofExcept : Except ε α → Prog σ W Q R ε α
  | .ok a => ret a
  | .error e => raise e

/-- `for x in xs: body x` -/
def forEach : List ι → (ι → Prog σ W Q R ε Unit) → Prog σ W Q R ε Unit
  | [], _ => ret ()
  | x :: xs, body => body x >>= fun _ => forEach xs body

/-- The program with its exceptions as values, in the place of any other kind of
exception. -/
def attempt {ε' : Type} : Prog σ W Q R ε α → Prog σ W Q R ε' (Except ε α)
  | ret a => ret (.ok a)
  | raise e => ret (.error e)
  | read k => read fun s => (k s).attempt
  | write u k => write u k.attempt
  | commit k => commit k.attempt
  | call q k => call q fun r => (k r).attempt

end Prog

end Tx
