import PsyDogeBridge.SolanaRuntime
import PsyDogeBridge.Sha256

/-! How the runtime derives the addresses of a program: the hash of the seeds, the program and a
marker, if it is not a point of the curve on which key pairs live. -/
namespace DerivedAddress

open PodLayout SolanaRuntime

def fieldOrder : ℕ := 2 ^ 255 - 19

def fieldPow : ℕ → ℕ → ℕ → ℕ
  | 0, _, _ => 1
  | bits + 1, base, exponent =>
    let rest := fieldPow bits (base * base % fieldOrder) (exponent / 2)
    if exponent % 2 = 1 then base * rest % fieldOrder else rest

def fieldInv (x : ℕ) : ℕ := fieldPow 256 x (fieldOrder - 2)

def edwardsD : ℕ := (fieldOrder - 121665 % fieldOrder) * fieldInv 121666 % fieldOrder

def isOnCurve (k : Pubkey) : Bool :=
  let y := leValue k.toList % 2 ^ 255 % fieldOrder
  let u := (y * y + (fieldOrder - 1)) % fieldOrder
  let v := (edwardsD * (y * y % fieldOrder) + 1) % fieldOrder
  let square := u * fieldInv v % fieldOrder
  square == 0 || fieldPow 256 square ((fieldOrder - 1) / 2) == 1

def PDA_MARKER : Bytes :=
  [80, 114, 111, 103, 114, 97, 109, 68, 101, 114, 105, 118, 101, 100, 65, 100, 100, 114, 101, 115,
    115]

def createProgramAddress (seeds : List Bytes) (programId : Pubkey) : Option Pubkey :=
  let hash := Sha256.sha256 (seeds.flatten ++ programId.toList ++ PDA_MARKER)
  if isOnCurve hash then none else some hash

def findFrom (seeds : List Bytes) (programId : Pubkey) : ℕ → Pubkey × UInt8
  | 0 => (Vector.replicate 32 0, 0)
  | bump + 1 =>
    match createProgramAddress (seeds ++ [[UInt8.ofNat bump]]) programId with
    | some k => (k, UInt8.ofNat bump)
    | none => findFrom seeds programId bump

def findProgramAddress (seeds : List Bytes) (programId : Pubkey) : Pubkey × UInt8 :=
  findFrom seeds programId 256

end DerivedAddress
