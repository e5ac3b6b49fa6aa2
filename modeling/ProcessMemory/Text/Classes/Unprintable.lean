import ProcessMemory.Text.CharSet

/-!
# Unprintable characters

What quoted text shows by number: characters without a shape of their own, and marks that would join
the character before.
-/
namespace ProcessMemory.CharSet

/-- The general categories Other and Separator, the space aside, the property
Default_Ignorable_Code_Point, and marks with the property Grapheme_Extend, as of Unicode 17. -/
def unprintable : CharSet := .ofText "
  0 20 7F A1 AD AE 300 370 378 37A 380 384 38B 38C 38D 38E 3A2 3A3 483 48A 530 531 557 559 58B 58D
  590 5BE 5BF 5C0 5C1 5C3 5C4 5C6 5C7 5D0 5EB 5EF 5F5 606 610 61B 61C 61D 64B 660 670 671 6D6 6DE
  6DF 6E5 6E7 6E9 6EA 6EE 70E 710 711 712 730 74D 7A6 7B1 7B2 7C0 7EB 7F4 7FB 7FE 816 81A 81B 824
  825 828 829 830 83F 840 859 85E 85F 860 86B 870 890 8A0 8CA 903 93A 93B 93C 93D 941 949 94D 94E
  951 958 962 964 981 982 984 985 98D 98F 991 993 9A9 9AA 9B1 9B2 9B3 9B6 9BA 9BD 9BE 9BF 9C1 9C7
  9C9 9CB 9CD 9CE 9CF 9DC 9DE 9DF 9E2 9E6 9FE A03 A04 A05 A0B A0F A11 A13 A29 A2A A31 A32 A34 A35
  A37 A38 A3A A3E A41 A59 A5D A5E A5F A66 A70 A72 A75 A76 A77 A83 A84 A85 A8E A8F A92 A93 AA9 AAA
  AB1 AB2 AB4 AB5 ABA ABD AC1 AC9 ACA ACB ACD AD0 AD1 AE0 AE2 AE6 AF2 AF9 AFA B02 B04 B05 B0D B0F
  B11 B13 B29 B2A B31 B32 B34 B35 B3A B3D B3E B40 B41 B47 B49 B4B B4D B5C B5E B5F B62 B66 B78 B83
  B84 B85 B8B B8E B91 B92 B96 B99 B9B B9C B9D B9E BA0 BA3 BA5 BA8 BAB BAE BBA BBF BC0 BC1 BC3 BC6
  BC9 BCA BCD BD0 BD1 BE6 BFB C01 C04 C05 C0D C0E C11 C12 C29 C2A C3A C3D C3E C41 C45 C58 C5B C5C
  C5E C60 C62 C66 C70 C77 C81 C82 C8D C8E C91 C92 CA9 CAA CB4 CB5 CBA CBD CBF CC1 CC2 CC3 CC5 CDC
  CDF CE0 CE2 CE6 CF0 CF1 CF4 D02 D0D D0E D11 D12 D3B D3D D3E D3F D41 D46 D49 D4A D4D D4E D50 D54
  D57 D58 D62 D66 D80 D82 D84 D85 D97 D9A DB2 DB3 DBC DBD DBE DC0 DC7 DD0 DD2 DD8 DDF DE6 DF0 DF2
  DF5 E01 E31 E32 E34 E3F E47 E4F E5C E81 E83 E84 E85 E86 E8B E8C EA4 EA5 EA6 EA7 EB1 EB2 EB4 EBD
  EBE EC0 EC5 EC6 EC7 ED0 EDA EDC EE0 F00 F18 F1A F35 F36 F37 F38 F39 F3A F48 F49 F6D F7F F80 F85
  F86 F88 F8D FBE FC6 FC7 FCD FCE FDB 1000 102D 1031 1032 1038 1039 103B 103D 103F 1058 105A 105E
  1061 1071 1075 1082 1083 1085 1087 108D 108E 109D 109E 10C6 10C7 10C8 10CD 10CE 10D0 115F 1161
  1249 124A 124E 1250 1257 1258 1259 125A 125E 1260 1289 128A 128E 1290 12B1 12B2 12B6 12B8 12BF
  12C0 12C1 12C2 12C6 12C8 12D7 12D8 1311 1312 1316 1318 135B 1360 137D 1380 139A 13A0 13F6 13F8
  13FE 1400 1680 1681 169D 16A0 16F9 1700 1712 171F 1732 1735 1737 1740 1752 1760 176D 176E 1771
  1780 17B4 17B6 17B7 17BE 17C6 17C7 17C9 17D4 17DD 17E0 17EA 17F0 17FA 1800 180B 1810 181A 1820
  1879 1880 1885 1887 18A9 18AA 18AB 18B0 18F6 1900 191F 1923 1927 1929 192C 1930 1932 1933 1939
  1940 1941 1944 196E 1970 1975 1980 19AC 19B0 19CA 19D0 19DB 19DE 1A17 1A19 1A1B 1A1E 1A56 1A57
  1A58 1A61 1A62 1A63 1A65 1A6D 1A73 1A80 1A8A 1A90 1A9A 1AA0 1AAE 1B04 1B34 1B3E 1B42 1B45 1B4D
  1B4E 1B6B 1B74 1B80 1B82 1BA2 1BA6 1BA8 1BAE 1BE6 1BE7 1BE8 1BEA 1BED 1BEE 1BEF 1BFC 1C2C 1C34
  1C36 1C3B 1C4A 1C4D 1C8B 1C90 1CBB 1CBD 1CC8 1CD3 1CD4 1CE1 1CE2 1CE9 1CED 1CEE 1CF4 1CF5 1CF8
  1CFA 1CFB 1D00 1DC0 1E00 1F16 1F18 1F1E 1F20 1F46 1F48 1F4E 1F50 1F58 1F59 1F5A 1F5B 1F5C 1F5D
  1F5E 1F5F 1F7E 1F80 1FB5 1FB6 1FC5 1FC6 1FD4 1FD6 1FDC 1FDD 1FF0 1FF2 1FF5 1FF6 1FFF 2010 2028
  2030 205F 2070 2072 2074 208F 2090 209D 20A0 20C2 2100 218C 2190 242A 2440 244B 2460 2B74 2B76
  2CEF 2CF2 2CF4 2CF9 2D26 2D27 2D28 2D2D 2D2E 2D30 2D68 2D6F 2D71 2D80 2D97 2DA0 2DA7 2DA8 2DAF
  2DB0 2DB7 2DB8 2DBF 2DC0 2DC7 2DC8 2DCF 2DD0 2DD7 2DD8 2DDF 2E00 2E5E 2E80 2E9A 2E9B 2EF4 2F00
  2FD6 2FF0 3000 3001 302A 3030 3040 3041 3097 309B 3100 3105 3130 3131 3164 3165 318F 3190 31E6
  31EF 321F 3220 A48D A490 A4C7 A4D0 A62C A640 A66F A673 A674 A67E A69E A6A0 A6F0 A6F2 A6F8 A700
  A7DD A7F1 A802 A803 A806 A807 A80B A80C A825 A827 A82C A830 A83A A840 A878 A880 A8C4 A8CE A8DA
  A8F2 A8FF A900 A926 A92E A947 A952 A953 A95F A97D A983 A9B3 A9B4 A9B6 A9BA A9BC A9BE A9C0 A9C1
  A9CE A9CF A9DA A9DE A9E5 A9E6 A9FF AA00 AA29 AA2F AA31 AA33 AA35 AA40 AA43 AA44 AA4C AA4D AA4E
  AA50 AA5A AA5C AA7C AA7D AAB0 AAB1 AAB2 AAB5 AAB7 AAB9 AABE AAC0 AAC1 AAC2 AAC3 AADB AAEC AAEE
  AAF6 AB01 AB07 AB09 AB0F AB11 AB17 AB20 AB27 AB28 AB2F AB30 AB6C AB70 ABE5 ABE6 ABE8 ABE9 ABED
  ABF0 ABFA AC00 D7A4 D7B0 D7C7 D7CB D7FC F900 FA6E FA70 FADA FB00 FB07 FB13 FB18 FB1D FB1E FB1F
  FB37 FB38 FB3D FB3E FB3F FB40 FB42 FB43 FB45 FB46 FDD0 FDF0 FE00 FE10 FE1A FE30 FE53 FE54 FE67
  FE68 FE6C FE70 FE75 FE76 FEFD FF01 FFA0 FFA1 FFBF FFC2 FFC8 FFCA FFD0 FFD2 FFD8 FFDA FFDD FFE0
  FFE7 FFE8 FFEF FFFC FFFE 10000 1000C 1000D 10027 10028 1003B 1003C 1003E 1003F 1004E 10050 1005E
  10080 100FB 10100 10103 10107 10134 10137 1018F 10190 1019D 101A0 101A1 101D0 101FD 10280 1029D
  102A0 102D1 102E1 102FC 10300 10324 1032D 1034B 10350 10376 10380 1039E 1039F 103C4 103C8 103D6
  10400 1049E 104A0 104AA 104B0 104D4 104D8 104FC 10500 10528 10530 10564 1056F 1057B 1057C 1058B
  1058C 10593 10594 10596 10597 105A2 105A3 105B2 105B3 105BA 105BB 105BD 105C0 105F4 10600 10737
  10740 10756 10760 10768 10780 10786 10787 107B1 107B2 107BB 10800 10806 10808 10809 1080A 10836
  10837 10839 1083C 1083D 1083F 10856 10857 1089F 108A7 108B0 108E0 108F3 108F4 108F6 108FB 1091C
  1091F 1093A 1093F 1095A 10980 109B8 109BC 109D0 109D2 10A01 10A10 10A14 10A15 10A18 10A19 10A36
  10A40 10A49 10A50 10A59 10A60 10AA0 10AC0 10AE5 10AEB 10AF7 10B00 10B36 10B39 10B56 10B58 10B73
  10B78 10B92 10B99 10B9D 10BA9 10BB0 10C00 10C49 10C80 10CB3 10CC0 10CF3 10CFA 10D24 10D30 10D3A
  10D40 10D66 10D6E 10D86 10D8E 10D90 10E60 10E7F 10E80 10EAA 10EAD 10EAE 10EB0 10EB2 10EC2 10EC8
  10ED0 10ED9 10F00 10F28 10F30 10F46 10F51 10F5A 10F70 10F82 10F86 10F8A 10FB0 10FCC 10FE0 10FF7
  11000 11001 11002 11038 11047 1104E 11052 11070 11071 11073 11075 11076 11082 110B3 110B7 110B9
  110BB 110BD 110BE 110C2 110D0 110E9 110F0 110FA 11103 11127 1112C 1112D 11136 11148 11150 11173
  11174 11177 11182 111B6 111BF 111C0 111C1 111C9 111CD 111CF 111D0 111E0 111E1 111F5 11200 11212
  11213 1122F 11232 11234 11238 1123E 1123F 11241 11280 11287 11288 11289 1128A 1128E 1128F 1129E
  1129F 112AA 112B0 112DF 112E0 112E3 112F0 112FA 11302 11304 11305 1130D 1130F 11311 11313 11329
  1132A 11331 11332 11334 11335 1133A 1133D 1133E 1133F 11340 11341 11345 11347 11349 1134B 1134D
  11350 11351 1135D 11364 11380 1138A 1138B 1138C 1138E 1138F 11390 113B6 113B7 113B8 113B9 113BB
  113CA 113CB 113CC 113CE 113D1 113D2 113D3 113D6 113D7 113D9 11400 11438 11440 11442 11445 11446
  11447 1145C 1145D 1145E 1145F 11462 11480 114B0 114B1 114B3 114B9 114BA 114BB 114BD 114BE 114BF
  114C1 114C2 114C4 114C8 114D0 114DA 11580 115AF 115B0 115B2 115B8 115BC 115BE 115BF 115C1 115DC
  11600 11633 1163B 1163D 1163E 1163F 11641 11645 11650 1165A 11660 1166D 11680 116AB 116AC 116AD
  116AE 116B0 116B8 116BA 116C0 116CA 116D0 116E4 11700 1171B 1171E 1171F 11720 11722 11726 11727
  11730 11747 11800 1182F 11838 11839 1183B 1183C 118A0 118F3 118FF 11907 11909 1190A 1190C 11914
  11915 11917 11918 11930 11931 11936 11937 11939 1193F 11943 11944 11947 11950 1195A 119A0 119A8
  119AA 119D4 119DC 119E0 119E1 119E5 11A00 11A01 11A0B 11A33 11A39 11A3B 11A3F 11A47 11A50 11A51
  11A57 11A59 11A5C 11A8A 11A97 11A98 11A9A 11AA3 11AB0 11AF9 11B00 11B0A 11B61 11B62 11B65 11B66
  11B67 11B68 11BC0 11BE2 11BF0 11BFA 11C00 11C09 11C0A 11C30 11C3E 11C3F 11C40 11C46 11C50 11C6D
  11C70 11C90 11CA9 11CAA 11CB1 11CB2 11CB4 11CB5 11D00 11D07 11D08 11D0A 11D0B 11D31 11D46 11D47
  11D50 11D5A 11D60 11D66 11D67 11D69 11D6A 11D8F 11D93 11D95 11D96 11D97 11D98 11D99 11DA0 11DAA
  11DB0 11DDC 11DE0 11DEA 11EE0 11EF3 11EF5 11EF9 11F02 11F11 11F12 11F36 11F3E 11F40 11F43 11F5A
  11FB0 11FB1 11FC0 11FF2 11FFF 1239A 12400 1246F 12470 12475 12480 12544 12F90 12FF3 13000 13430
  13441 13447 13460 143FB 14400 14647 16100 1611E 1612A 1612D 16130 1613A 16800 16A39 16A40 16A5F
  16A60 16A6A 16A6E 16ABF 16AC0 16ACA 16AD0 16AEE 16AF5 16AF6 16B00 16B30 16B37 16B46 16B50 16B5A
  16B5B 16B62 16B63 16B78 16B7D 16B90 16D40 16D7A 16E40 16E9B 16EA0 16EB9 16EBB 16ED4 16F00 16F4B
  16F50 16F88 16F93 16FA0 16FE0 16FE4 16FF2 16FF7 17000 18CD6 18CFF 18D1F 18D80 18DF3 1AFF0 1AFF4
  1AFF5 1AFFC 1AFFD 1AFFF 1B000 1B123 1B132 1B133 1B150 1B153 1B155 1B156 1B164 1B168 1B170 1B2FC
  1BC00 1BC6B 1BC70 1BC7D 1BC80 1BC89 1BC90 1BC9A 1BC9C 1BC9D 1BC9F 1BCA0 1CC00 1CCFD 1CD00 1CEB4
  1CEBA 1CED1 1CEE0 1CEF1 1CF50 1CFC4 1D000 1D0F6 1D100 1D127 1D129 1D165 1D16A 1D16D 1D183 1D185
  1D18C 1D1AA 1D1AE 1D1EB 1D200 1D242 1D245 1D246 1D2C0 1D2D4 1D2E0 1D2F4 1D300 1D357 1D360 1D379
  1D400 1D455 1D456 1D49D 1D49E 1D4A0 1D4A2 1D4A3 1D4A5 1D4A7 1D4A9 1D4AD 1D4AE 1D4BA 1D4BB 1D4BC
  1D4BD 1D4C4 1D4C5 1D506 1D507 1D50B 1D50D 1D515 1D516 1D51D 1D51E 1D53A 1D53B 1D53F 1D540 1D545
  1D546 1D547 1D54A 1D551 1D552 1D6A6 1D6A8 1D7CC 1D7CE 1DA00 1DA37 1DA3B 1DA6D 1DA75 1DA76 1DA84
  1DA85 1DA8C 1DF00 1DF1F 1DF25 1DF2B 1E030 1E06E 1E100 1E12D 1E137 1E13E 1E140 1E14A 1E14E 1E150
  1E290 1E2AE 1E2C0 1E2EC 1E2F0 1E2FA 1E2FF 1E300 1E4D0 1E4EC 1E4F0 1E4FA 1E5D0 1E5EE 1E5F0 1E5FB
  1E5FF 1E600 1E6C0 1E6DF 1E6E0 1E6E3 1E6E4 1E6E6 1E6E7 1E6EE 1E6F0 1E6F5 1E6FE 1E700 1E7E0 1E7E7
  1E7E8 1E7EC 1E7ED 1E7EF 1E7F0 1E7FF 1E800 1E8C5 1E8C7 1E8D0 1E900 1E944 1E94B 1E94C 1E950 1E95A
  1E95E 1E960 1EC71 1ECB5 1ED01 1ED3E 1EE00 1EE04 1EE05 1EE20 1EE21 1EE23 1EE24 1EE25 1EE27 1EE28
  1EE29 1EE33 1EE34 1EE38 1EE39 1EE3A 1EE3B 1EE3C 1EE42 1EE43 1EE47 1EE48 1EE49 1EE4A 1EE4B 1EE4C
  1EE4D 1EE50 1EE51 1EE53 1EE54 1EE55 1EE57 1EE58 1EE59 1EE5A 1EE5B 1EE5C 1EE5D 1EE5E 1EE5F 1EE60
  1EE61 1EE63 1EE64 1EE65 1EE67 1EE6B 1EE6C 1EE73 1EE74 1EE78 1EE79 1EE7D 1EE7E 1EE7F 1EE80 1EE8A
  1EE8B 1EE9C 1EEA1 1EEA4 1EEA5 1EEAA 1EEAB 1EEBC 1EEF0 1EEF2 1F000 1F02C 1F030 1F094 1F0A0 1F0AF
  1F0B1 1F0C0 1F0C1 1F0D0 1F0D1 1F0F6 1F100 1F1AE 1F1E6 1F203 1F210 1F23C 1F240 1F249 1F250 1F252
  1F260 1F266 1F300 1F6D9 1F6DC 1F6ED 1F6F0 1F6FD 1F700 1F7DA 1F7E0 1F7EC 1F7F0 1F7F1 1F800 1F80C
  1F810 1F848 1F850 1F85A 1F860 1F888 1F890 1F8AE 1F8B0 1F8BC 1F8C0 1F8C2 1F8D0 1F8D9 1F900 1FA58
  1FA60 1FA6E 1FA70 1FA7D 1FA80 1FA8B 1FA8E 1FAC7 1FAC8 1FAC9 1FACD 1FADD 1FADF 1FAEB 1FAEF 1FAF9
  1FB00 1FB93 1FB94 1FBFB 20000 2A6E0 2A700 2B81E 2B820 2CEAE 2CEB0 2EBE1 2EBF0 2EE5E 2F800 2FA1E
  30000 3134B 31350 3347A 110000"

end ProcessMemory.CharSet
