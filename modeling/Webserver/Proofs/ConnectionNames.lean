import Webserver.ConnectionRegistry

/-! The buffer of `newConnection` holds the whole of `-ip:port#id`, so that the names of
different connections are different. -/

namespace Webserver

namespace InetAddress

private theorem byte_length (byte : UInt8) : (toString byte.toNat).length ≤ 3 :=
  (Nat.length_repr_le_iff (by decide)).mpr (Nat.lt_trans byte.toNat_lt (by decide))

theorem toIpPort_length (address : InetAddress) : address.toIpPort.length ≤ 21 := by
  have first := byte_length address.first
  have second := byte_length address.second
  have third := byte_length address.third
  have fourth := byte_length address.fourth
  have port : (toString address.port.toNat).length ≤ 5 :=
    (Nat.length_repr_le_iff (by decide)).mpr (Nat.lt_trans address.port.toNat_lt (by decide))
  have dot : ".".length = 1 := by decide
  have colon : ":".length = 1 := by decide
  simp only [toIpPort, toIp, String.length_append, dot, colon]
  omega

end InetAddress

namespace ConnectionRegistry

private theorem id_toString {n : Nat} (bound : n < 2147483648) : toString (Int32.ofNat n).toInt = n.repr := by
  rw [Int32.toInt_ofNat_of_lt bound]
  rfl

private theorem buf_toList {ipPort : String} (short : ipPort.length ≤ 21) {n : Nat} (bound : n < 2147483648) :
    (buf ipPort (Int32.ofNat n)).toList = ("-" ++ ipPort ++ "#").toList ++ n.repr.toList := by
  have digits : n.repr.length ≤ 10 := (Nat.length_repr_le_iff (by decide)).mpr (Nat.lt_trans bound (by decide))
  have dash : "-".length = 1 := by decide
  have sharp : "#".length = 1 := by decide
  have whole : ("-" ++ ipPort ++ "#" ++ n.repr).toList.length ≤ 63 := by
    rw [String.length_toList]
    simp only [String.length_append, dash, sharp]
    omega
  rw [buf, id_toString bound, String.toList_ofList, List.take_of_length_le whole, String.toList_append]

/-- The numbers below 2^31 give different names. -/
theorem connName_injective {name ipPort : String} (short : ipPort.length ≤ 21) {i j : Nat} (left : i < 2147483648)
    (right : j < 2147483648) (same : name ++ buf ipPort (Int32.ofNat i) = name ++ buf ipPort (Int32.ofNat j)) : i = j := by
  have lists := congrArg String.toList same
  rw [String.toList_append, String.toList_append, List.append_cancel_left_eq, buf_toList short left, buf_toList short right,
    List.append_cancel_left_eq, Nat.toList_repr, Nat.toList_repr] at lists
  have numbers := congrArg (fun digits => Nat.ofDigitChars 10 digits 0) lists
  simpa using numbers

end ConnectionRegistry
end Webserver
