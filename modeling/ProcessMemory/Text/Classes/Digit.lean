import ProcessMemory.Text.CharSet

/-!
# Decimal digits
-/
namespace ProcessMemory.CharSet

/-- The property Decimal_Number, as of Unicode 16. -/
def digit : CharSet := .ofText "
  30 3A 660 66A 6F0 6FA 7C0 7CA 966 970 9E6 9F0 A66 A70 AE6 AF0 B66 B70 BE6 BF0 C66 C70 CE6 CF0 D66
  D70 DE6 DF0 E50 E5A ED0 EDA F20 F2A 1040 104A 1090 109A 17E0 17EA 1810 181A 1946 1950 19D0 19DA
  1A80 1A8A 1A90 1A9A 1B50 1B5A 1BB0 1BBA 1C40 1C4A 1C50 1C5A A620 A62A A8D0 A8DA A900 A90A A9D0
  A9DA A9F0 A9FA AA50 AA5A ABF0 ABFA FF10 FF1A 104A0 104AA 10D30 10D3A 10D40 10D4A 11066 11070 110F0
  110FA 11136 11140 111D0 111DA 112F0 112FA 11450 1145A 114D0 114DA 11650 1165A 116C0 116CA 116D0
  116E4 11730 1173A 118E0 118EA 11950 1195A 11BF0 11BFA 11C50 11C5A 11D50 11D5A 11DA0 11DAA 11F50
  11F5A 16130 1613A 16A60 16A6A 16AC0 16ACA 16B50 16B5A 16D70 16D7A 1CCF0 1CCFA 1D7CE 1D800 1E140
  1E14A 1E2F0 1E2FA 1E4F0 1E4FA 1E5F1 1E5FB 1E950 1E95A 1FBF0 1FBFA"

end ProcessMemory.CharSet
